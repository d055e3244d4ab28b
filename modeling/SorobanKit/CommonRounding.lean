import SorobanKit.CommonMath
import SorobanKit.HostRounding

set_option autoImplicit false

/-!
# Products divided with rounding

Three routines divide a product: one truncates, one rounds up and one to the nearest integer. They
share the checked product and the truncated quotient, and go by the remainder from there.
-/
namespace SorobanKit.CommonMath
open HostInteger HostRounding

/-- `x.ok_or(FixedPointError::Overflow)` -/
def okOrOverflow (x : Option ℤ) : Except FixedPointError ℤ :=
  match x with
  | some value => .ok value
  | none => .error .overflow

def mulDivUp (a b denominator : ℤ) : Except FixedPointError ℤ :=
  if denominator = 0 then .error .divisionByZero
  else do
    let product ← okOrOverflow (checkedMul a b)
    let quotient ← okOrOverflow (checkedDiv product denominator)
    let remainder ← okOrOverflow (checkedRem product denominator)
    if remainder = 0 then return quotient
    else if 0 < remainder ↔ 0 < denominator then okOrOverflow (checkedAdd quotient 1)
    else return quotient

def mulDivNearest (a b denominator : ℤ) : Except FixedPointError ℤ :=
  if denominator = 0 then .error .divisionByZero
  else do
    let product ← okOrOverflow (checkedMul a b)
    let quotient ← okOrOverflow (checkedDiv product denominator)
    let remainder ← okOrOverflow (checkedRem product denominator)
    if remainder = 0 then return quotient
    else do
      let absRemainder ← okOrOverflow (checkedAbs remainder)
      let absDenominator ← okOrOverflow (checkedAbs denominator)
      let twiceRemainder ← okOrOverflow (checkedMul absRemainder 2)
      if absDenominator ≤ twiceRemainder then
        if 0 < remainder ↔ 0 < denominator then okOrOverflow (checkedAdd quotient 1)
        else okOrOverflow (checkedSub quotient 1)
      else return quotient

/-- A division fails where it has to, and returns the exact quotient rounded elsewhere. -/
structure RoundsAs (rounded : ℚ → ℤ → Prop) (a b denominator : ℤ)
    (result : Except FixedPointError ℤ) : Prop where
  zero : result = .error .divisionByZero ↔ denominator = 0
  value : ∀ q, result = .ok q ↔
    denominator ≠ 0 ∧ InI128 (a * b) ∧ InI128 q ∧ rounded ((a * b : ℤ) / denominator) q
  overflow : result = .error .overflow ↔
    denominator ≠ 0 ∧ ¬ (InI128 (a * b) ∧ ∃ q, InI128 q ∧ rounded ((a * b : ℤ) / denominator) q)

section Division
variable {a b n d v : ℤ}

theorem okOrOverflow_checked (v : ℤ) :
    okOrOverflow (checked v) = if InI128 v then .ok v else .error .overflow := by
  unfold checked
  by_cases h : InI128 v
  · rw [if_pos h, if_pos h]
    rfl
  · rw [if_neg h, if_neg h]
    rfl

theorem okOrOverflow_of_inI128 (h : InI128 v) : okOrOverflow (checked v) = .ok v := by
  rw [okOrOverflow_checked, if_pos h]

/-- Only `MIN / -1` overflows, and it leaves no remainder. -/
theorem inI128_tdiv (hn : InI128 n) (hd : d ≠ 0) (hrem : n.tmod d ≠ 0) :
    InI128 (n.tdiv d) ∧ InI128 (n.tdiv d + 1) ∧ InI128 (n.tdiv d - 1) := by
  have htwo : 2 ≤ d.natAbs := by
    by_contra hsmall
    have hunit : d = 1 ∨ d = -1 := by omega
    rcases hunit with rfl | rfl
    · exact hrem (Int.tmod_one n)
    · rw [Int.tmod_neg, Int.tmod_one] at hrem
      exact hrem rfl
  have habs : (n.tdiv d).natAbs ≤ n.natAbs / 2 := by
    rw [Int.natAbs_tdiv]
    exact Nat.div_le_div_left htwo (by decide)
  unfold InI128 at hn ⊢
  omega

theorem checked_division (hd : d ≠ 0) (hfits : InI128 (a * b))
    (f : ℤ → ℤ → ℤ → Except FixedPointError ℤ) :
    (do
      let product ← okOrOverflow (checkedMul a b)
      let quotient ← okOrOverflow (checkedDiv product d)
      let remainder ← okOrOverflow (checkedRem product d)
      f product quotient remainder) =
    if InI128 ((a * b).tdiv d) then f (a * b) ((a * b).tdiv d) ((a * b).tmod d)
    else .error .overflow := by
  have hmul : okOrOverflow (checkedMul a b) = .ok (a * b) := okOrOverflow_of_inI128 hfits
  have hdiv : checkedDiv (a * b) d = checked ((a * b).tdiv d) := if_neg hd
  rw [hmul]
  change (okOrOverflow (checkedDiv (a * b) d) >>= fun quotient =>
    okOrOverflow (checkedRem (a * b) d) >>= fun remainder => f (a * b) quotient remainder) = _
  unfold checkedRem
  rw [hdiv]
  unfold checked
  by_cases hquotient : InI128 ((a * b).tdiv d)
  · rw [if_pos hquotient, if_pos hquotient]
    rfl
  · rw [if_neg hquotient, if_neg hquotient]
    rfl

theorem checked_division_of_product (hfits : ¬ InI128 (a * b))
    (f : ℤ → Except FixedPointError ℤ) :
    (okOrOverflow (checkedMul a b) >>= f) = .error .overflow := by
  have hmul : checkedMul a b = none := if_neg hfits
  rw [hmul]
  rfl

theorem mulDivUp_of_fits (hd : d ≠ 0) (hfits : InI128 (a * b)) :
    mulDivUp a b d = okOrOverflow (checked ⌈((a * b : ℤ) : ℚ) / d⌉) := by
  unfold mulDivUp
  rw [if_neg hd, checked_division hd hfits, ceil_quotient hd]
  by_cases hrem : (a * b).tmod d = 0
  · have hnothing : ¬ 0 < lost (a * b) d := by
      rw [(lost_eq_zero hd).mpr hrem]
      exact lt_irrefl 0
    rw [if_neg hnothing, okOrOverflow_checked, if_pos hrem]
    rfl
  · obtain ⟨hquotient, _, _⟩ := inI128_tdiv hfits hd hrem
    rw [if_pos hquotient, if_neg hrem]
    by_cases hup : 0 < (a * b).tmod d ↔ 0 < d
    · rw [if_pos hup, if_pos ((lost_pos hd hrem).mpr hup)]
      rfl
    · rw [if_neg hup, if_neg (mt (lost_pos hd hrem).mp hup), okOrOverflow_of_inI128 hquotient]
      rfl

/-- The remainder can be doubled, and the denominator made positive. -/
def Doubles (n d : ℤ) : Prop := InI128 |d| ∧ InI128 (2 * |n.tmod d|)

theorem mulDivNearest_exact (hd : d ≠ 0) (hfits : InI128 (a * b)) (hrem : (a * b).tmod d = 0) :
    mulDivNearest a b d = okOrOverflow (checked (nearestQuotient (a * b) d)) := by
  have hless : ¬ |d| ≤ 2 * |(a * b).tmod d| := fun hhalf => tmod_ne_zero_of_half hd hhalf hrem
  unfold mulDivNearest nearestQuotient
  rw [if_neg hd, checked_division hd hfits, if_neg hless, if_pos hrem, okOrOverflow_checked]
  rfl

theorem nearestQuotient_fits (hfits : InI128 n) (hd : d ≠ 0) (hrem : n.tmod d ≠ 0) :
    InI128 (nearestQuotient n d) := by
  obtain ⟨hquotient, hup, hdown⟩ := inI128_tdiv hfits hd hrem
  unfold nearestQuotient
  split
  · split
    · exact hup
    · exact hdown
  · exact hquotient

theorem mulDivNearest_of_doubles (hd : d ≠ 0) (hfits : InI128 (a * b))
    (hrem : (a * b).tmod d ≠ 0) (hdoubles : Doubles (a * b) d) :
    mulDivNearest a b d = .ok (nearestQuotient (a * b) d) := by
  obtain ⟨hquotient, hup, hdown⟩ := inI128_tdiv hfits hd hrem
  obtain ⟨hden, htwice⟩ := hdoubles
  have hremainder : InI128 |(a * b).tmod d| := by
    unfold InI128 at htwice ⊢
    omega
  rw [Int.mul_comm] at htwice
  unfold mulDivNearest nearestQuotient
  rw [if_neg hd, checked_division hd hfits, if_pos hquotient, if_neg hrem]
  unfold checkedAbs
  rw [okOrOverflow_of_inI128 hremainder, okOrOverflow_of_inI128 hden]
  dsimp only [bind, Except.bind]
  unfold checkedMul
  rw [okOrOverflow_of_inI128 htwice]
  dsimp only
  rw [Int.mul_comm]
  by_cases hhalf : |d| ≤ 2 * |(a * b).tmod d|
  · rw [if_pos hhalf, if_pos hhalf]
    by_cases hsign : 0 < (a * b).tmod d ↔ 0 < d
    · rw [if_pos hsign, if_pos hsign]
      exact okOrOverflow_of_inI128 hup
    · rw [if_neg hsign, if_neg hsign]
      exact okOrOverflow_of_inI128 hdown
  · rw [if_neg hhalf, if_neg hhalf]
    rfl

theorem mulDivNearest_of_not_doubles (hd : d ≠ 0) (hfits : InI128 (a * b))
    (hrem : (a * b).tmod d ≠ 0) (hdoubles : ¬ Doubles (a * b) d) :
    mulDivNearest a b d = .error .overflow := by
  obtain ⟨hquotient, _, _⟩ := inI128_tdiv hfits hd hrem
  unfold mulDivNearest
  rw [if_neg hd, checked_division hd hfits, if_pos hquotient, if_neg hrem]
  unfold checkedAbs checkedMul
  rw [okOrOverflow_checked]
  by_cases hremainder : InI128 |(a * b).tmod d|
  · rw [if_pos hremainder, okOrOverflow_checked]
    by_cases hden : InI128 |d|
    · have htwice : ¬ InI128 (|(a * b).tmod d| * 2) := by
        rw [Int.mul_comm]
        exact fun h => hdoubles ⟨hden, h⟩
      rw [if_pos hden]
      dsimp only [bind, Except.bind]
      rw [okOrOverflow_checked, if_neg htwice]
    · rw [if_neg hden]
      rfl
  · rw [if_neg hremainder]
    rfl

end Division

section Rounding
variable {a b d : ℤ} {rounded : ℚ → ℤ → Prop} {result : Except FixedPointError ℤ}

theorem roundsAs_of_value {v : ℤ} (hunique : ∀ x p q, rounded x p → rounded x q → p = q)
    (hzero : d = 0 → result = .error .divisionByZero)
    (hproduct : d ≠ 0 → ¬ InI128 (a * b) → result = .error .overflow)
    (hvalue : d ≠ 0 → InI128 (a * b) →
      rounded ((a * b : ℤ) / d) v ∧ result = okOrOverflow (checked v)) :
    RoundsAs rounded a b d result := by
  by_cases hd : d = 0
  · rw [hzero hd]
    constructor <;> simp [hd]
  by_cases hfits : InI128 (a * b)
  · obtain ⟨hround, hresult⟩ := hvalue hd hfits
    have hall : ∀ q, rounded ((a * b : ℤ) / d) q ↔ q = v := by
      intro q
      constructor
      · exact fun hq => hunique _ _ _ hq hround
      · rintro rfl
        exact hround
    rw [hresult, okOrOverflow_checked]
    by_cases hv : InI128 v
    · rw [if_pos hv]
      constructor
      · simp [hd]
      · intro q
        rw [hall]
        constructor
        · intro h
          cases h
          exact ⟨hd, hfits, hv, rfl⟩
        · rintro ⟨_, _, _, rfl⟩
          rfl
      · simp only [hall, exists_eq_right, hv, hfits, and_self, not_true, and_false, reduceCtorEq]
    · rw [if_neg hv]
      constructor
      · simp [hd]
      · intro q
        rw [hall]
        constructor
        · intro h
          cases h
        · rintro ⟨_, _, hq, rfl⟩
          exact absurd hq hv
      · refine iff_of_true rfl ⟨hd, ?_⟩
        rintro ⟨_, q, hq, hround⟩
        rw [(hall q).mp hround] at hq
        exact hv hq
  · rw [hproduct hd hfits]
    constructor <;> simp [hd, hfits]

theorem mulDivUp_rounds (a b d : ℤ) : RoundsAs (fun x q => q = ⌈x⌉) a b d (mulDivUp a b d) := by
  apply roundsAs_of_value (v := ⌈((a * b : ℤ) : ℚ) / d⌉)
  · intro x p q hp hq
    rw [hp, hq]
  · intro hd
    exact if_pos hd
  · intro hd hfits
    unfold mulDivUp
    rw [if_neg hd]
    exact checked_division_of_product hfits _
  · intro hd hfits
    exact ⟨rfl, mulDivUp_of_fits hd hfits⟩

theorem mulDivNearest_rounds_iff (a b d : ℤ) :
    RoundsAs NearestAway a b d (mulDivNearest a b d) ↔
      (d ≠ 0 → InI128 (a * b) → (a * b).tmod d ≠ 0 → Doubles (a * b) d) := by
  constructor
  · intro hrounds hd hfits hrem
    by_contra hdoubles
    have hresult := mulDivNearest_of_not_doubles hd hfits hrem hdoubles
    exact (hrounds.overflow.mp hresult).2 ⟨hfits, nearestQuotient (a * b) d,
      nearestQuotient_fits hfits hd hrem, nearestAway_nearestQuotient (a * b) hd⟩
  · intro hsmall
    apply roundsAs_of_value (v := nearestQuotient (a * b) d)
    · exact fun x p q hp hq => hp.unique hq
    · intro hd
      exact if_pos hd
    · intro hd hfits
      unfold mulDivNearest
      rw [if_neg hd]
      exact checked_division_of_product hfits _
    · intro hd hfits
      refine ⟨nearestAway_nearestQuotient (a * b) hd, ?_⟩
      by_cases hrem : (a * b).tmod d = 0
      · exact mulDivNearest_exact hd hfits hrem
      · rw [mulDivNearest_of_doubles hd hfits hrem (hsmall hd hfits hrem),
          okOrOverflow_of_inI128 (nearestQuotient_fits hfits hd hrem)]

/-- Rounding up is always right, and rounding to the nearest exactly where the remainder can be
    doubled. -/
theorem roundings_exact_iff (a b d : I128) :
    RoundsAs (fun x q => q = ⌈x⌉) a b d (mulDivUp a b d) ∧
    ((RoundsAs (fun x q => q = ⌈x⌉) a b d (mulDivUp a b d) ∧
        RoundsAs NearestAway a b d (mulDivNearest a b d)) ↔
      (d.1 ≠ 0 → InI128 (a * b) → (a.1 * b.1).tmod d ≠ 0 →
        InI128 |d.1| ∧ InI128 (2 * |(a.1 * b.1).tmod d|))) := by
  have hup := mulDivUp_rounds a b d
  refine ⟨hup, ?_⟩
  rw [and_iff_right hup]
  exact mulDivNearest_rounds_iff a b d

/-- `2^126 / (2^127 - 1)` is nearest to one. -/
theorem nearest_quotient_refused :
    mulDivNearest (2 ^ 126) 1 (2 ^ 127 - 1) = .error .overflow ∧
    ¬ ∀ a b d : I128, RoundsAs (fun x q => q = ⌈x⌉) a b d (mulDivUp a b d) ∧
      RoundsAs NearestAway a b d (mulDivNearest a b d) := by
  have hresult : mulDivNearest (2 ^ 126) 1 (2 ^ 127 - 1) = .error .overflow := by decide
  refine ⟨hresult, ?_⟩
  intro hall
  have hrounds := (hall ⟨2 ^ 126, by decide⟩ ⟨1, by decide⟩ ⟨2 ^ 127 - 1, by decide⟩).2
  apply (hrounds.overflow.mp hresult).2
  refine ⟨by decide, 1, by decide, ?_⟩
  unfold NearestAway
  norm_num [abs_le]

theorem mulDivNearest_ok {q : ℤ} (h : mulDivNearest a b d = .ok q) :
    q = nearestQuotient (a * b) d := by
  by_cases hd : d = 0
  · unfold mulDivNearest at h
    rw [if_pos hd] at h
    cases h
  by_cases hfits : InI128 (a * b)
  · by_cases hrem : (a * b).tmod d = 0
    · rw [mulDivNearest_exact hd hfits hrem, okOrOverflow_checked] at h
      split at h
      · cases h
        rfl
      · cases h
    · by_cases hdoubles : Doubles (a * b) d
      · rw [mulDivNearest_of_doubles hd hfits hrem hdoubles] at h
        cases h
        rfl
      · rw [mulDivNearest_of_not_doubles hd hfits hrem hdoubles] at h
        cases h
  · unfold mulDivNearest at h
    rw [if_neg hd, checked_division_of_product hfits] at h
    cases h

/-- The truncated quotient is above the nearest one where that lies further from zero on the negative
    side. -/
theorem tdiv_le_nearest_iff {n : ℤ} (hd : 0 < d) :
    (n.tdiv d ≤ nearestQuotient n d ∧ nearestQuotient n d ≤ ⌈(n : ℚ) / d⌉) ↔
      0 ≤ n ∨ 2 * |n.tmod d| < d := by
  have hne : d ≠ 0 := by omega
  rw [ceil_quotient hne]
  unfold nearestQuotient
  by_cases hhalf : |d| ≤ 2 * |n.tmod d|
  · have hrem := tmod_ne_zero_of_half hne hhalf
    have hsign : 0 < n.tmod d ↔ 0 ≤ n := by
      constructor
      · intro hpos
        by_contra hneg
        have hflip := Int.tmod_nonneg d (Int.neg_nonneg_of_nonpos (Int.le_of_lt (not_le.mp hneg)))
        rw [Int.neg_tmod] at hflip
        omega
      · intro hn
        exact lt_of_le_of_ne (Int.tmod_nonneg d hn) hrem.symm
    have hlost := lost_pos hne hrem
    rw [abs_of_pos hd] at hhalf
    rw [if_pos (by rw [abs_of_pos hd]; exact hhalf)]
    by_cases hn : 0 ≤ n
    · have hup : 0 < n.tmod d ↔ 0 < d := iff_of_true (hsign.mpr hn) hd
      rw [if_pos hup, if_pos (hlost.mpr hup)]
      omega
    · have hdown : ¬ (0 < n.tmod d ↔ 0 < d) := fun hup => hn (hsign.mp (hup.mpr hd))
      rw [if_neg hdown]
      omega
  · rw [if_neg hhalf]
    rw [abs_of_pos hd] at hhalf
    refine iff_of_true ?_ (.inr (by omega))
    split <;> omega

theorem within_one (hd : d ≠ 0) {n : ℤ} :
    |(n : ℚ) / d - n.tdiv d| < 1 ∧ |(n : ℚ) / d - nearestQuotient n d| < 1 ∧
      |(n : ℚ) / d - ⌈(n : ℚ) / d⌉| < 1 := by
  refine ⟨?_, ?_, ?_⟩
  · rw [quotient_eq hd, add_sub_cancel_left]
    exact abs_lost_lt_one hd
  · have hhalf := (nearestAway_nearestQuotient n hd).1
    linarith
  · have hlow := Int.le_ceil ((n : ℚ) / d)
    have hhigh := Int.ceil_lt_add_one ((n : ℚ) / d)
    rw [abs_lt]
    constructor <;> linarith

/-- The three quotients are in order where the product is not negative or its remainder below half of
    the denominator. -/
theorem roundings_ordered_iff (a b d : I128) (hd : 0 < d.1) {down nearest up : ℤ}
    (hdown : mulDiv a b d = .ok down) (hnearest : mulDivNearest a b d = .ok nearest)
    (hup : mulDivUp a b d = .ok up) :
    (down ≤ nearest ∧ nearest ≤ up ∧ |((a.1 * b.1 : ℤ) : ℚ) / d.1 - down| < 1 ∧
      |((a.1 * b.1 : ℤ) : ℚ) / d.1 - nearest| < 1 ∧ |((a.1 * b.1 : ℤ) : ℚ) / d.1 - up| < 1) ↔
      0 ≤ a.1 * b.1 ∨ 2 * |(a.1 * b.1).tmod d.1| < d.1 := by
  rw [← tdiv_le_nearest_iff hd, mulDiv_ok hdown, mulDivNearest_ok hnearest,
    (((mulDivUp_rounds a b d).value up).mp hup).2.2.2]
  constructor
  · rintro ⟨hlow, hhigh, _⟩
    exact ⟨hlow, hhigh⟩
  · rintro ⟨hlow, hhigh⟩
    exact ⟨hlow, hhigh, within_one (by omega)⟩

end Rounding

/-- A quotient of `-4/3`, which all three take for `-1`. -/
theorem roundings_ordered_demo :
    (mulDiv (-4) 1 3 = .ok (-1) ∧ mulDivNearest (-4) 1 3 = .ok (-1) ∧
      mulDivUp (-4) 1 3 = .ok (-1)) ∧
    ((-1 : ℤ) ≤ -1 ∧ |((-4 * 1 : ℤ) : ℚ) / (3 : ℤ) - (-1 : ℤ)| < 1) := by
  have hordered := (@roundings_ordered_iff ⟨-4, by decide⟩ ⟨1, by decide⟩ ⟨3, by decide⟩ (by decide)
    (-1) (-1) (-1) (by decide) (by decide) (by decide)).mpr (by decide)
  exact ⟨by decide, hordered.1, hordered.2.2.1⟩

/-- Half of `-3`: truncated `-1`, to the nearest `-2`. -/
theorem nearest_below_truncated :
    mulDiv (-3) 1 2 = .ok (-1) ∧ mulDivNearest (-3) 1 2 = .ok (-2) ∧ mulDivUp (-3) 1 2 = .ok (-1) ∧
    ¬ ∀ (a b d : I128) (down nearest up : ℤ), 0 < d.1 → mulDiv a b d = .ok down →
      mulDivNearest a b d = .ok nearest → mulDivUp a b d = .ok up →
        down ≤ nearest ∧ nearest ≤ up := by
  refine ⟨by decide, by decide, by decide, ?_⟩
  intro hall
  have hwrong := hall ⟨-3, by decide⟩ ⟨1, by decide⟩ ⟨2, by decide⟩ (-1) (-2) (-1) (by decide)
    (by decide) (by decide) (by decide)
  omega

end SorobanKit.CommonMath
