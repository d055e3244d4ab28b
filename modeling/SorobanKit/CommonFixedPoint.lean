import SorobanKit.CommonRounding
import SorobanKit.HostApproximation

set_option autoImplicit false

/-!
# Fixed-point values

A `FixedPoint128` is a mantissa over a scale. Products and quotients are truncated to the scale, which
loses less than one unit of it, and what is computed from truncated values carries their errors
along. `Formula` is anything that callers can compute with the two operations.
-/
namespace SorobanKit.CommonMath
open HostApproximation HostInteger HostRounding

def toScale (value scale : ℤ) : Except FixedPointError ℤ :=
  if scale = 0 then .error .invalidScale
  else okOrOverflow (checkedMul value scale)

def fromScale (value scale : ℤ) : Except FixedPointError ℤ :=
  if scale = 0 then .error .invalidScale
  else okOrOverflow (checkedDiv value scale)

def scaleMul (a b scale : ℤ) : Except FixedPointError ℤ :=
  if scale = 0 then .error .invalidScale
  else mulDiv a b scale

def scaleDiv (a b scale : ℤ) : Except FixedPointError ℤ :=
  if b = 0 then .error .divisionByZero
  else if scale = 0 then .error .invalidScale
  else do
    let numerator ← okOrOverflow (checkedMul a scale)
    okOrOverflow (checkedDiv numerator b)

structure FixedPoint128 where
  mantissa : ℤ
  scale : ℤ
  deriving DecidableEq, Repr

namespace FixedPoint128

def new (mantissa scale : ℤ) : Except FixedPointError FixedPoint128 :=
  if scale = 0 then .error .invalidScale
  else .ok ⟨mantissa, scale⟩

def fromValue (value scale : ℤ) : Except FixedPointError FixedPoint128 := do
  let mantissa ← toScale value scale
  return ⟨mantissa, scale⟩

def toValue (x : FixedPoint128) : Except FixedPointError ℤ := fromScale x.mantissa x.scale

def checkedMul (x other : FixedPoint128) : Except FixedPointError FixedPoint128 :=
  if x.scale ≠ other.scale then .error .invalidScale
  else do
    let mantissa ← scaleMul x.mantissa other.mantissa x.scale
    return ⟨mantissa, x.scale⟩

def checkedDiv (x other : FixedPoint128) : Except FixedPointError FixedPoint128 :=
  if x.scale ≠ other.scale then .error .invalidScale
  else do
    let mantissa ← scaleDiv x.mantissa other.mantissa x.scale
    return ⟨mantissa, x.scale⟩

/-- The number that is represented. -/
def value (x : FixedPoint128) : ℚ := x.mantissa / x.scale

end FixedPoint128

section Operations
variable {a b n d s m v : ℤ} {x y z : FixedPoint128}

theorem bind_ok {ε α β : Type} {e : Except ε α} {f : α → Except ε β} {r : β} :
    (e >>= f) = .ok r ↔ ∃ a, e = .ok a ∧ f a = .ok r := by
  cases e with
  | error code => simp [bind, Except.bind]
  | ok a => simp [bind, Except.bind]

theorem okOrOverflow_checked_ok : okOrOverflow (checked n) = .ok m ↔ InI128 n ∧ m = n := by
  rw [okOrOverflow_checked]
  split
  · next h => simp [h, eq_comm]
  · next h => simp [h]

theorem okOrOverflow_checkedDiv_ok (hd : d ≠ 0) :
    okOrOverflow (HostInteger.checkedDiv n d) = .ok m ↔ InI128 (n.tdiv d) ∧ m = n.tdiv d := by
  unfold HostInteger.checkedDiv
  rw [if_neg hd, okOrOverflow_checked_ok]

theorem scaleMul_ok : scaleMul a b s = .ok m ↔
    s ≠ 0 ∧ InI128 (a * b) ∧ InI128 m ∧ m = (a * b).tdiv s := by
  unfold scaleMul
  split
  · next h => simp [h]
  · next h => rw [mulDiv_spec]

theorem scaleDiv_ok : scaleDiv a b s = .ok m ↔
    b ≠ 0 ∧ s ≠ 0 ∧ InI128 (a * s) ∧ InI128 m ∧ m = (a * s).tdiv b := by
  unfold scaleDiv
  by_cases hb : b = 0
  · simp [hb]
  · by_cases hs : s = 0
    · simp [hb, hs]
    · simp only [if_neg hb, if_neg hs, bind_ok, HostInteger.checkedMul, okOrOverflow_checked_ok]
      constructor
      · rintro ⟨_, ⟨hproduct, rfl⟩, hquotient⟩
        obtain ⟨hfits, rfl⟩ := (okOrOverflow_checkedDiv_ok hb).mp hquotient
        exact ⟨hb, hs, hproduct, hfits, rfl⟩
      · rintro ⟨_, _, hproduct, hfits, rfl⟩
        exact ⟨_, ⟨hproduct, rfl⟩, (okOrOverflow_checkedDiv_ok hb).mpr ⟨hfits, rfl⟩⟩

theorem checkedMul_ok : x.checkedMul y = .ok z ↔ x.scale = y.scale ∧
    scaleMul x.mantissa y.mantissa x.scale = .ok z.mantissa ∧ z.scale = x.scale := by
  unfold FixedPoint128.checkedMul
  obtain ⟨m, t⟩ := z
  by_cases h : x.scale = y.scale
  · simp only [h, ne_eq, not_true_eq_false, if_false, bind_ok, true_and]
    constructor
    · rintro ⟨_, hm, hz⟩
      cases hz
      exact ⟨hm, rfl⟩
    · rintro ⟨hm, rfl⟩
      exact ⟨m, hm, rfl⟩
  · simp [h]

theorem checkedDiv_ok : x.checkedDiv y = .ok z ↔ x.scale = y.scale ∧
    scaleDiv x.mantissa y.mantissa x.scale = .ok z.mantissa ∧ z.scale = x.scale := by
  unfold FixedPoint128.checkedDiv
  obtain ⟨m, t⟩ := z
  by_cases h : x.scale = y.scale
  · simp only [h, ne_eq, not_true_eq_false, if_false, bind_ok, true_and]
    constructor
    · rintro ⟨_, hm, hz⟩
      cases hz
      exact ⟨hm, rfl⟩
    · rintro ⟨hm, rfl⟩
      exact ⟨m, hm, rfl⟩
  · simp [h]

theorem toValue_fromValue (hv : InI128 v) (h : FixedPoint128.fromValue v s = .ok x) :
    x.toValue = .ok v := by
  unfold FixedPoint128.fromValue toScale at h
  split at h
  · cases h
  · next hs =>
    obtain ⟨m, hm, hx⟩ := bind_ok.mp h
    obtain ⟨_, rfl⟩ := okOrOverflow_checked_ok.mp hm
    cases hx
    unfold FixedPoint128.toValue fromScale
    rw [if_neg hs, okOrOverflow_checkedDiv_ok hs, Int.mul_tdiv_cancel v hs]
    exact ⟨hv, rfl⟩

theorem tdiv_near (hd : d ≠ 0) (hs : s ≠ 0) :
    Near |(s : ℚ)|⁻¹ ((n.tdiv d : ℤ) / (s : ℚ)) ((n : ℚ) / d / s) := by
  have hs' : (s : ℚ) ≠ 0 := by exact_mod_cast hs
  unfold Near
  rw [quotient_eq hd, ← sub_div, sub_add_cancel_left, abs_div, abs_neg, ← one_div]
  exact div_le_div_of_nonneg_right (abs_lost_lt_one hd).le (abs_nonneg _)

theorem checkedMul_near (h : x.checkedMul y = .ok z) :
    Near |(z.scale : ℚ)|⁻¹ z.value (x.value * y.value) := by
  obtain ⟨hscale, hmul, hz⟩ := checkedMul_ok.mp h
  obtain ⟨hs, _, _, hquotient⟩ := scaleMul_ok.mp hmul
  have hs' : (x.scale : ℚ) ≠ 0 := by exact_mod_cast hs
  have hexact : x.value * y.value = ((x.mantissa * y.mantissa : ℤ) : ℚ) / x.scale / x.scale := by
    unfold FixedPoint128.value
    rw [← hscale, div_mul_div_comm, div_div]
    push_cast
    rfl
  rw [hexact, FixedPoint128.value, hz, hquotient]
  exact tdiv_near hs hs

theorem checkedDiv_near (h : x.checkedDiv y = .ok z) :
    Near |(z.scale : ℚ)|⁻¹ z.value (x.value / y.value) := by
  obtain ⟨hscale, hdiv, hz⟩ := checkedDiv_ok.mp h
  obtain ⟨hb, hs, _, _, hquotient⟩ := scaleDiv_ok.mp hdiv
  have hs' : (x.scale : ℚ) ≠ 0 := by exact_mod_cast hs
  have hb' : (y.mantissa : ℚ) ≠ 0 := by exact_mod_cast hb
  have hexact : x.value / y.value =
      ((x.mantissa * x.scale : ℤ) : ℚ) / y.mantissa / x.scale := by
    unfold FixedPoint128.value
    rw [← hscale]
    push_cast
    field_simp
  rw [hexact, FixedPoint128.value, hz, hquotient]
  exact tdiv_near hb hs

end Operations

/-- What callers compute from fixed-point values. -/
inductive Formula where
  | constant (x : FixedPoint128)
  | mul (left right : Formula)
  | div (left right : Formula)

namespace Formula

def eval : Formula → Except FixedPointError FixedPoint128
  | constant x => .ok x
  | mul left right => do
    let x ← left.eval
    let y ← right.eval
    x.checkedMul y
  | div left right => do
    let x ← left.eval
    let y ← right.eval
    x.checkedDiv y

/-- The same computation without rounding. -/
def exact : Formula → ℚ
  | constant x => x.value
  | mul left right => left.exact * right.exact
  | div left right => left.exact / right.exact

/-- How far the result may be off, when one truncation loses at most `u`. -/
def error (u : ℚ) : Formula → ℚ
  | constant _ => 0
  | mul left right =>
    |left.exact| * right.error u + |right.exact| * left.error u + left.error u * right.error u + u
  | div left right =>
    (|left.exact| * right.error u + |right.exact| * left.error u) /
      (|right.exact| * (|right.exact| - right.error u)) + u

/-- All constants have the scale `s`. -/
def Scaled (s : ℤ) : Formula → Prop
  | constant x => x.scale = s
  | mul left right => left.Scaled s ∧ right.Scaled s
  | div left right => left.Scaled s ∧ right.Scaled s

/-- Every divisor is further from zero than its error. -/
def Apart (u : ℚ) : Formula → Prop
  | constant _ => True
  | mul left right => left.Apart u ∧ right.Apart u
  | div left right => left.Apart u ∧ right.Apart u ∧ right.error u < |right.exact|

/-- `i128::MAX` -/
def largest : ℚ := 170141183460469231731687303715884105727

/-- The exact values, with their errors, leave room for the products that are formed. -/
def InRange (s : ℤ) : Formula → Prop
  | constant _ => True
  | mul left right => left.InRange s ∧ right.InRange s ∧
    (|left.exact| + left.error |(s : ℚ)|⁻¹) * (|right.exact| + right.error |(s : ℚ)|⁻¹) * s ^ 2 ≤
      largest
  | div left right => left.InRange s ∧ right.InRange s ∧
    (|left.exact| + left.error |(s : ℚ)|⁻¹) * s ^ 2 ≤ largest

end Formula

section Formulas
variable {s n d : ℤ} {f left right : Formula} {x y z : FixedPoint128}

theorem eval_scale (hs : f.Scaled s) (h : f.eval = .ok z) : z.scale = s := by
  induction f generalizing z with
  | constant x =>
    cases h
    exact hs
  | mul left right ihl ihr =>
    obtain ⟨x, hx, h⟩ := bind_ok.mp h
    obtain ⟨y, hy, h⟩ := bind_ok.mp h
    obtain ⟨_, _, hz⟩ := checkedMul_ok.mp h
    exact hz.trans (ihl hs.1 hx)
  | div left right ihl ihr =>
    obtain ⟨x, hx, h⟩ := bind_ok.mp h
    obtain ⟨y, hy, h⟩ := bind_ok.mp h
    obtain ⟨_, _, hz⟩ := checkedDiv_ok.mp h
    exact hz.trans (ihl hs.1 hx)

theorem eval_near (hs : f.Scaled s) (hf : f.Apart |(s : ℚ)|⁻¹) (h : f.eval = .ok z) :
    Near (f.error |(s : ℚ)|⁻¹) z.value f.exact := by
  induction f generalizing z with
  | constant x =>
    cases h
    exact Near.refl _
  | mul left right ihl ihr =>
    have hscale := eval_scale hs h
    obtain ⟨x, hx, h⟩ := bind_ok.mp h
    obtain ⟨y, hy, h⟩ := bind_ok.mp h
    have hround := checkedMul_near h
    rw [hscale] at hround
    exact hround.trans ((ihl hs.1 hf.1 hx).mul (ihr hs.2 hf.2 hy))
  | div left right ihl ihr =>
    have hscale := eval_scale hs h
    obtain ⟨x, hx, h⟩ := bind_ok.mp h
    obtain ⟨y, hy, h⟩ := bind_ok.mp h
    have hround := checkedDiv_near h
    rw [hscale] at hround
    exact hround.trans ((ihl hs.1 hf.1 hx).div (ihr hs.2 hf.2.1 hy) hf.2.2)

theorem inI128_of_abs_le (h : |(n : ℚ)| ≤ Formula.largest) : InI128 n := by
  obtain ⟨hlow, hhigh⟩ := abs_le.mp h
  unfold Formula.largest at hlow hhigh
  have hlow' : -170141183460469231731687303715884105727 ≤ n := by exact_mod_cast hlow
  have hhigh' : n ≤ 170141183460469231731687303715884105727 := by exact_mod_cast hhigh
  exact ⟨by omega, hhigh'⟩

theorem inI128_tdiv_of_abs_le (d : ℤ) (h : |(n : ℚ)| ≤ Formula.largest) : InI128 (n.tdiv d) := by
  refine inI128_of_abs_le (le_trans ?_ h)
  have hle : |n.tdiv d| ≤ |n| := by
    rw [Int.abs_eq_natAbs, Int.abs_eq_natAbs, Int.natAbs_tdiv]
    exact_mod_cast Nat.div_le_self _ _
  exact_mod_cast hle

theorem abs_mantissa_le {δ v : ℚ} (hs : s ≠ 0) (hx : x.scale = s) (h : Near δ x.value v) :
    |(x.mantissa : ℚ)| ≤ (|v| + δ) * |(s : ℚ)| := by
  have hpos : 0 < |(s : ℚ)| := abs_pos.mpr (by exact_mod_cast hs)
  have habs := h.abs_le
  rw [FixedPoint128.value, hx, abs_div, div_le_iff₀ hpos] at habs
  exact habs

theorem checkedMul_returns {δ ε v w : ℚ} (hs : s ≠ 0) (hx : x.scale = s) (hy : y.scale = s)
    (hv : Near δ x.value v) (hw : Near ε y.value w)
    (hrange : (|v| + δ) * (|w| + ε) * s ^ 2 ≤ Formula.largest) : ∃ z, x.checkedMul y = .ok z := by
  have hproduct : |((x.mantissa * y.mantissa : ℤ) : ℚ)| ≤ Formula.largest := by
    have hfirst := abs_mantissa_le hs hx hv
    have hsecond := abs_mantissa_le hs hy hw
    push_cast
    rw [abs_mul]
    calc |(x.mantissa : ℚ)| * |(y.mantissa : ℚ)|
        ≤ (|v| + δ) * |(s : ℚ)| * ((|w| + ε) * |(s : ℚ)|) :=
          mul_le_mul hfirst hsecond (abs_nonneg _) ((abs_nonneg _).trans hfirst)
      _ = (|v| + δ) * (|w| + ε) * s ^ 2 := by rw [← sq_abs (s : ℚ)]; ring
      _ ≤ Formula.largest := hrange
  refine ⟨⟨(x.mantissa * y.mantissa).tdiv s, s⟩, checkedMul_ok.mpr ⟨hx.trans hy.symm, ?_, hx.symm⟩⟩
  rw [hx]
  exact scaleMul_ok.mpr ⟨hs, inI128_of_abs_le hproduct, inI128_tdiv_of_abs_le s hproduct, rfl⟩

theorem checkedDiv_returns {δ ε v w : ℚ} (hs : s ≠ 0) (hx : x.scale = s) (hy : y.scale = s)
    (hv : Near δ x.value v) (hw : Near ε y.value w) (hapart : ε < |w|)
    (hrange : (|v| + δ) * s ^ 2 ≤ Formula.largest) : ∃ z, x.checkedDiv y = .ok z := by
  have hnumerator : |((x.mantissa * s : ℤ) : ℚ)| ≤ Formula.largest := by
    have hfirst := abs_mantissa_le hs hx hv
    push_cast
    rw [abs_mul]
    calc |(x.mantissa : ℚ)| * |(s : ℚ)|
        ≤ (|v| + δ) * |(s : ℚ)| * |(s : ℚ)| := mul_le_mul_of_nonneg_right hfirst (abs_nonneg _)
      _ = (|v| + δ) * s ^ 2 := by rw [← sq_abs (s : ℚ)]; ring
      _ ≤ Formula.largest := hrange
  have hdivisor : y.mantissa ≠ 0 := by
    intro hzero
    refine hw.ne_zero hapart ?_
    rw [FixedPoint128.value, hzero, Int.cast_zero, zero_div]
  refine ⟨⟨(x.mantissa * s).tdiv y.mantissa, s⟩,
    checkedDiv_ok.mpr ⟨hx.trans hy.symm, ?_, hx.symm⟩⟩
  rw [hx]
  exact scaleDiv_ok.mpr ⟨hdivisor, hs, inI128_of_abs_le hnumerator,
    inI128_tdiv_of_abs_le y.mantissa hnumerator, rfl⟩

theorem eval_returns (hs : s ≠ 0) (hscaled : f.Scaled s) (hf : f.Apart |(s : ℚ)|⁻¹)
    (hrange : f.InRange s) : ∃ z, f.eval = .ok z := by
  induction f with
  | constant x => exact ⟨x, rfl⟩
  | mul left right ihl ihr =>
    obtain ⟨x, hx⟩ := ihl hscaled.1 hf.1 hrange.1
    obtain ⟨y, hy⟩ := ihr hscaled.2 hf.2 hrange.2.1
    obtain ⟨z, hz⟩ := checkedMul_returns hs (eval_scale hscaled.1 hx) (eval_scale hscaled.2 hy)
      (eval_near hscaled.1 hf.1 hx) (eval_near hscaled.2 hf.2 hy) hrange.2.2
    exact ⟨z, bind_ok.mpr ⟨x, hx, bind_ok.mpr ⟨y, hy, hz⟩⟩⟩
  | div left right ihl ihr =>
    obtain ⟨x, hx⟩ := ihl hscaled.1 hf.1 hrange.1
    obtain ⟨y, hy⟩ := ihr hscaled.2 hf.2.1 hrange.2.1
    obtain ⟨z, hz⟩ := checkedDiv_returns hs (eval_scale hscaled.1 hx) (eval_scale hscaled.2 hy)
      (eval_near hscaled.1 hf.1 hx) (eval_near hscaled.2 hf.2.1 hy) hf.2.2 hrange.2.2
    exact ⟨z, bind_ok.mpr ⟨x, hx, bind_ok.mpr ⟨y, hy, hz⟩⟩⟩

/-- A computation whose divisors stay away from zero is as near the exact one as its errors add up
    to, and while its products leave room in an `i128` it does not fail. -/
theorem formula_evaluates (f : Formula) (s : ℤ) (hs : s ≠ 0) (hscaled : f.Scaled s)
    (hf : f.Apart |(s : ℚ)|⁻¹) :
    (∀ z, f.eval = .ok z → z.scale = s ∧ |z.value - f.exact| ≤ f.error |(s : ℚ)|⁻¹) ∧
      (f.InRange s → ∃ z, f.eval = .ok z) :=
  ⟨fun _ hz => ⟨eval_scale hscaled hz, eval_near hscaled hf hz⟩, eval_returns hs hscaled hf⟩

end Formulas

/-- A third, times two: both constants have three decimals. -/
def demoFormula : Formula :=
  .mul (.div (.constant ⟨1000, 1000⟩) (.constant ⟨3000, 1000⟩)) (.constant ⟨2000, 1000⟩)

example : demoFormula.eval = .ok ⟨666, 1000⟩ := by decide

theorem formula_evaluates_demo :
    ∃ z, demoFormula.eval = .ok z ∧ z.scale = 1000 ∧ |z.value - 1 / 3 * 2| ≤ 3 / 1000 := by
  have hexact : demoFormula.exact = 1 / 3 * 2 := by
    norm_num [demoFormula, Formula.exact, FixedPoint128.value]
  have herror : demoFormula.error |((1000 : ℤ) : ℚ)|⁻¹ = 3 / 1000 := by
    norm_num [demoFormula, Formula.error, Formula.exact, FixedPoint128.value]
  have hapart : demoFormula.Apart |((1000 : ℤ) : ℚ)|⁻¹ := by
    norm_num [demoFormula, Formula.Apart, Formula.error, Formula.exact, FixedPoint128.value]
  have hrange : demoFormula.InRange 1000 := by
    norm_num [demoFormula, Formula.InRange, Formula.error, Formula.exact, FixedPoint128.value,
      Formula.largest]
  obtain ⟨hnear, hreturns⟩ :=
    formula_evaluates demoFormula 1000 (by decide) ⟨⟨rfl, rfl⟩, rfl⟩ hapart
  obtain ⟨z, hz⟩ := hreturns hrange
  rw [← hexact, ← herror]
  exact ⟨z, hz, hnear z hz⟩

end SorobanKit.CommonMath
