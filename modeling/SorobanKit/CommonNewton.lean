import SorobanKit.CommonMath
import SorobanKit.HostDescent
import SorobanKit.HostInvocation

set_option autoImplicit false

/-!
# Square roots of scaled values

The other function of the source that is called `fixed_sqrt` takes a value with its scale, and finds the
root of their product by Newton's iteration from a power of two. Its checked steps report an overflow;
it has none once the product fits.
-/
namespace SorobanKit.CommonMath
open HostDescent HostInteger HostInvocation

/-- A power of two from half the bits of the radicand. -/
def initialGuess (radicand : ℤ) : Option ℤ :=
  let bitLength := 128 - leadingZeros radicand
  let shift := (bitLength + 1) / 2
  shiftLeft 1 shift

/-- One round of the iteration. -/
def nextGuess (radicand x : ℤ) : Option ℤ := do
  let quotient ← checkedDiv radicand x
  let sum ← checkedAdd x quotient
  return sum.tdiv 2

theorem nextGuess_low {radicand x next : ℤ} (h : nextGuess radicand x = some next) :
    -170141183460469231731687303715884105728 ≤ next := by
  simp only [nextGuess, Option.bind_eq_bind, Option.bind_eq_some_iff, checkedAdd_eq_some] at h
  obtain ⟨quotient, _, _, ⟨hfits, rfl⟩, hnext⟩ := h
  have hhalf : ((x + quotient).tdiv 2).natAbs ≤ (x + quotient).natAbs := Int.natAbs_tdiv_le_natAbs _ _
  unfold InI128 at hfits
  cases hnext
  omega

/-- The loop falls with every round, and no round leaves the range. -/
def newtonLoop (radicand x : ℤ) : Option ℤ :=
  match _ : nextGuess radicand x with
  | none => none
  | some next => if x ≤ next then some x else newtonLoop radicand next
termination_by (x + 170141183460469231731687303715884105728).toNat
decreasing_by
  have hlow := nextGuess_low ‹nextGuess radicand x = some next›
  omega

def fixedSqrtScaled (val scale : ℤ) : Result FixedPointError ℤ := do
  rejectIf (val < 0 ∨ scale ≤ 0) .invalidScale
  if val = 0 then return 0
  else do
    let radicand ← okOr (checkedMul val scale) .overflow
    let x ← unwrap (initialGuess radicand)
    okOr (newtonLoop radicand x) .overflow

section Iteration
variable {n x : ℕ}

/-- The iteration starts above the root, from at most `2^64`. -/
theorem initialGuess_above (hn : 0 < n) (hfits : InI128 n) :
    ∃ x, initialGuess n = some ((x : ℕ) : ℤ) ∧ Above n x ∧ x ≤ 2 ^ 64 := by
  obtain ⟨hsign, hbits⟩ := leadingZeros_bounds hn hfits
  let shift := (128 - leadingZeros n + 1) / 2
  have hshift : shift ≤ 64 := by omega
  have hpos : 0 < 2 ^ shift := Nat.two_pow_pos shift
  refine ⟨2 ^ shift, ?_, ⟨hpos, ?_⟩, Nat.pow_le_pow_right (by decide) hshift⟩
  · rw [Nat.cast_pow]
    exact shiftLeft_one (by omega)
  · have hdouble : 2 ^ (128 - leadingZeros n) ≤ 2 ^ shift * 2 ^ shift := by
      rw [← Nat.pow_add]
      exact Nat.pow_le_pow_right (by decide) (by omega)
    calc n < 2 ^ (128 - leadingZeros n) := hbits
      _ ≤ 2 ^ shift * 2 ^ shift := hdouble
      _ ≤ (2 ^ shift + 1) * (2 ^ shift + 1) := Nat.mul_self_le_mul_self (Nat.le_succ _)

theorem nextGuess_eq (h : Above n x) (hx : x ≤ 2 ^ 64) :
    nextGuess n x = some ((newtonStep n x : ℕ) : ℤ) := by
  have hquotient : n / x ≤ x + 2 := div_le_of_above h.above
  have hnonneg : 0 ≤ n / x := Nat.zero_le _
  have hpos := h.pos
  simp only [nextGuess, Option.bind_eq_bind, Option.bind_eq_some_iff, checkedDiv_eq_some,
    checkedAdd_eq_some]
  rw [← Int.ofNat_tdiv]
  refine ⟨_, ⟨by omega, ?_, rfl⟩, _, ⟨?_, rfl⟩, ?_⟩
  · unfold InI128
    omega
  · unfold InI128
    omega
  · rw [newtonStep, ← Nat.cast_add, ← Nat.cast_two, ← Int.ofNat_tdiv]
    rfl

theorem newtonLoop_eq (hn : 0 < n) (h : Above n x) (hx : x ≤ 2 ^ 64) :
    newtonLoop n x = some ((descend (newtonStep n) x : ℕ) : ℤ) := by
  fun_induction descend (newtonStep n) x with
  | case1 x hfalls ih =>
    rw [newtonLoop]
    split
    · next hnone =>
      rw [nextGuess_eq h hx] at hnone
      cases hnone
    · next next hsome =>
      rw [nextGuess_eq h hx] at hsome
      cases hsome
      rw [if_neg (by omega)]
      exact ih (h.step hn) (by omega)
  | case2 x hstops =>
    rw [newtonLoop]
    split
    · next hnone =>
      rw [nextGuess_eq h hx] at hnone
      cases hnone
    · next next hsome =>
      rw [nextGuess_eq h hx] at hsome
      cases hsome
      rw [if_pos (by omega)]

end Iteration

section Scaled
variable {val scale : ℤ}

theorem fixedSqrtScaled_of_invalid (h : val < 0 ∨ scale ≤ 0) :
    fixedSqrtScaled val scale = .error (.error .invalidScale) := by
  rw [fixedSqrtScaled, rejectIf_pos h]
  rfl

theorem fixedSqrtScaled_of_overflow (hval : 0 ≤ val) (hscale : 0 < scale)
    (hover : ¬ InI128 (val * scale)) : fixedSqrtScaled val scale = .error (.error .overflow) := by
  have hne : val ≠ 0 := by
    rintro rfl
    rw [Int.zero_mul] at hover
    exact hover (by decide)
  have hproduct : checkedMul val scale = none := by
    rw [checkedMul, checked, if_neg hover]
  rw [fixedSqrtScaled, rejectIf_neg (by omega), ok_bind, if_neg hne, hproduct]
  rfl

theorem fixedSqrtScaled_of_fits (hval : 0 ≤ val) (hscale : 0 < scale)
    (hfits : InI128 (val * scale)) :
    fixedSqrtScaled val scale = .ok ((Nat.sqrt (val * scale).toNat : ℕ) : ℤ) := by
  rw [fixedSqrtScaled, rejectIf_neg (by omega), ok_bind]
  by_cases hzero : val = 0
  · rw [if_pos hzero, hzero, Int.zero_mul, Int.toNat_zero, Nat.sqrt_zero]
    rfl
  · have hpos : 0 < val * scale := Int.mul_pos (by omega) hscale
    obtain ⟨n, hn⟩ := Int.eq_ofNat_of_zero_le hpos.le
    rw [hn] at hpos hfits
    have hradicand : 0 < n := Int.natCast_pos.mp hpos
    obtain ⟨x, hguess, habove, hx⟩ := initialGuess_above hradicand hfits
    have hloop : newtonLoop n x = some ((Nat.sqrt n : ℕ) : ℤ) := by
      rw [newtonLoop_eq hradicand habove hx, descend_newtonStep hradicand habove]
    rw [if_neg hzero, hn, Int.toNat_natCast]
    simp only [bind_eq_ok, okOr_eq_ok, unwrap_eq_ok, checkedMul_eq_some]
    exact ⟨n, ⟨hn ▸ hfits, hn⟩, x, hguess, hloop⟩

/-- The root of a product that fits is found, and each error has its one cause. -/
theorem fixedSqrtScaled_spec (val scale : ℤ) :
    (fixedSqrtScaled val scale = .error (.error .invalidScale) ↔ val < 0 ∨ scale ≤ 0) ∧
    (fixedSqrtScaled val scale = .error (.error .overflow) ↔
      0 ≤ val ∧ 0 < scale ∧ ¬ InI128 (val * scale)) ∧
    ((∃ root, fixedSqrtScaled val scale = .ok root ∧ 0 ≤ root ∧ root * root ≤ val * scale ∧
      val * scale < (root + 1) * (root + 1)) ↔ 0 ≤ val ∧ 0 < scale ∧ InI128 (val * scale)) := by
  by_cases hinvalid : val < 0 ∨ scale ≤ 0
  · rw [fixedSqrtScaled_of_invalid hinvalid]
    refine ⟨iff_of_true rfl hinvalid, iff_of_false (by simp) (by omega), iff_of_false ?_ (by omega)⟩
    rintro ⟨root, hroot, _⟩
    cases hroot
  · have hval : 0 ≤ val := by omega
    have hscale : 0 < scale := by omega
    by_cases hfits : InI128 (val * scale)
    · rw [fixedSqrtScaled_of_fits hval hscale hfits]
      refine ⟨iff_of_false (by simp) hinvalid, iff_of_false (by simp) (fun h => h.2.2 hfits),
        iff_of_true ?_ ⟨hval, hscale, hfits⟩⟩
      obtain ⟨n, hn⟩ := Int.eq_ofNat_of_zero_le (Int.mul_nonneg hval hscale.le)
      rw [hn, Int.toNat_natCast]
      refine ⟨Nat.sqrt n, rfl, Int.natCast_nonneg _, ?_, ?_⟩
      · exact_mod_cast Nat.sqrt_le n
      · exact_mod_cast Nat.lt_succ_sqrt n
    · rw [fixedSqrtScaled_of_overflow hval hscale hfits]
      refine ⟨iff_of_false (by simp) hinvalid, iff_of_true rfl ⟨hval, hscale, hfits⟩,
        iff_of_false ?_ fun h => hfits h.2.2⟩
      rintro ⟨root, hroot, _⟩
      cases hroot

end Scaled

end SorobanKit.CommonMath
