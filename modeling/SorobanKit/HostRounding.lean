import Mathlib.Algebra.Order.Floor.Ring
import Mathlib.Data.Rat.Floor
import Mathlib.Tactic.Linarith
import Mathlib.Tactic.Positivity

set_option autoImplicit false

/-!
# Rounding the quotient of two integers

Truncation leaves a remainder with the sign of the dividend. The remainder says how much of the exact
quotient was lost, and so how the truncated one is rounded up or to the nearest integer.
-/
namespace SorobanKit.HostRounding

/-- An integer next to which there is no closer one, and of two such the one further from zero. -/
def NearestAway (x : ℚ) (q : ℤ) : Prop :=
  |x - q| ≤ 1 / 2 ∧ (|x - q| = 1 / 2 → |x| ≤ |(q : ℚ)|)

theorem NearestAway.not_succ {x : ℚ} {p : ℤ} (hp : NearestAway x p) :
    ¬ NearestAway x (p + 1) := by
  intro hq
  obtain ⟨_, hbelow⟩ := abs_le.mp hp.1
  obtain ⟨habove, _⟩ := abs_le.mp hq.1
  push_cast at habove
  have hhalf : x = p + 1 / 2 := by linarith
  have hdown : |x - p| = 1 / 2 := by
    rw [hhalf, add_sub_cancel_left]
    norm_num
  have hup : |x - (p + 1 : ℤ)| = 1 / 2 := by
    push_cast
    rw [hhalf, add_sub_add_left_eq_sub]
    norm_num
  have hlower := hp.2 hdown
  have hupper := hq.2 hup
  push_cast at hupper
  rw [hhalf] at hlower hupper
  rcases lt_or_ge p 0 with hneg | hnonneg
  · have hp1 : (p : ℚ) ≤ -1 := by exact_mod_cast Int.le_sub_one_of_lt hneg
    rw [abs_of_nonpos (by linarith), abs_of_nonpos (by linarith)] at hupper
    linarith
  · have hp0 : (0 : ℚ) ≤ p := by exact_mod_cast hnonneg
    rw [abs_of_nonneg (by linarith), abs_of_nonneg (by linarith)] at hlower
    linarith

theorem NearestAway.le_succ {x : ℚ} {p q : ℤ} (hp : NearestAway x p) (hq : NearestAway x q) :
    q ≤ p + 1 := by
  obtain ⟨_, hbelow⟩ := abs_le.mp hp.1
  obtain ⟨habove, _⟩ := abs_le.mp hq.1
  have hle : (q : ℚ) ≤ p + 1 := by linarith
  exact_mod_cast hle

theorem NearestAway.unique {x : ℚ} {p q : ℤ} (hp : NearestAway x p) (hq : NearestAway x q) :
    p = q := by
  have hle := hp.le_succ hq
  have hge := hq.le_succ hp
  rcases lt_trichotomy p q with hlt | heq | hgt
  · rw [show q = p + 1 by omega] at hq
    exact absurd hq hp.not_succ
  · exact heq
  · rw [show p = q + 1 by omega] at hp
    exact absurd hp hq.not_succ

section Quotient
variable {n d : ℤ}

/-- What the exact quotient has beyond the truncated one. -/
def lost (n d : ℤ) : ℚ := n.tmod d / d

theorem quotient_eq (hd : d ≠ 0) : (n : ℚ) / d = n.tdiv d + lost n d := by
  have hd' : (d : ℚ) ≠ 0 := by exact_mod_cast hd
  have hsplit : (n : ℚ) = n.tdiv d * d + n.tmod d := by exact_mod_cast (Int.tdiv_mul_add_tmod n d).symm
  unfold lost
  rw [div_eq_iff hd', add_mul, div_mul_cancel₀ _ hd']
  exact hsplit

theorem abs_tmod_lt (hd : d ≠ 0) : |n.tmod d| < |d| := by
  rw [Int.abs_eq_natAbs, Int.abs_eq_natAbs, Int.natAbs_tmod]
  exact_mod_cast Nat.mod_lt _ (Int.natAbs_pos.mpr hd)

theorem abs_lost : |lost n d| = (|n.tmod d| : ℤ) / (|d| : ℤ) := by
  unfold lost
  rw [abs_div, Int.cast_abs, Int.cast_abs]

theorem abs_lost_lt_one (hd : d ≠ 0) : |lost n d| < 1 := by
  have hpos : (0 : ℚ) < (|d| : ℤ) := by exact_mod_cast abs_pos.mpr hd
  rw [abs_lost, div_lt_one hpos]
  exact_mod_cast abs_tmod_lt hd

theorem half_le_abs_lost (hd : d ≠ 0) : 1 / 2 ≤ |lost n d| ↔ |d| ≤ 2 * |n.tmod d| := by
  have hpos : (0 : ℚ) < (|d| : ℤ) := by exact_mod_cast abs_pos.mpr hd
  rw [abs_lost, div_le_div_iff₀ (by norm_num) hpos, one_mul, mul_comm]
  exact_mod_cast Iff.rfl

theorem lost_eq_zero (hd : d ≠ 0) : lost n d = 0 ↔ n.tmod d = 0 := by
  have hd' : (d : ℚ) ≠ 0 := by exact_mod_cast hd
  unfold lost
  rw [div_eq_zero_iff, or_iff_left hd']
  exact_mod_cast Iff.rfl

theorem lost_pos (hd : d ≠ 0) (hrem : n.tmod d ≠ 0) : 0 < lost n d ↔ (0 < n.tmod d ↔ 0 < d) := by
  unfold lost
  rw [div_pos_iff]
  norm_cast
  omega

theorem tdiv_nonneg_of_lost (h : 0 < lost n d) : 0 ≤ n.tdiv d := by
  have hneg : n ≤ 0 → n.tmod d ≤ 0 := by
    intro hn
    have hflip := Int.tmod_nonneg d (Int.neg_nonneg_of_nonpos hn)
    rw [Int.neg_tmod] at hflip
    omega
  have hpos : 0 ≤ n → 0 ≤ n.tmod d := Int.tmod_nonneg d
  unfold lost at h
  rw [div_pos_iff] at h
  norm_cast at h
  rcases h with ⟨hrem, hd⟩ | ⟨hrem, hd⟩
  · exact Int.tdiv_nonneg (by omega) (by omega)
  · exact Int.tdiv_nonneg_of_nonpos_of_nonpos (by omega) (by omega)

theorem lost_neg (n d : ℤ) : lost (-n) d = -lost n d := by
  unfold lost
  rw [Int.neg_tmod, Int.cast_neg, neg_div]

theorem tdiv_nonpos_of_lost (h : lost n d < 0) : n.tdiv d ≤ 0 := by
  have hflip : 0 < lost (-n) d := by
    rw [lost_neg]
    linarith
  have hnonneg := tdiv_nonneg_of_lost hflip
  rw [Int.neg_tdiv] at hnonneg
  omega

/-- Rounding up. -/
theorem ceil_quotient (hd : d ≠ 0) :
    ⌈(n : ℚ) / d⌉ = if 0 < lost n d then n.tdiv d + 1 else n.tdiv d := by
  obtain ⟨hlow, hhigh⟩ := abs_lt.mp (abs_lost_lt_one (n := n) hd)
  rw [quotient_eq hd, Int.ceil_intCast_add]
  split
  · next hpos =>
    have hone : ⌈lost n d⌉ = 1 := by
      rw [Int.ceil_eq_iff]
      push_cast
      constructor <;> linarith
    rw [hone]
  · next hnot =>
    have hzero : ⌈lost n d⌉ = 0 := by
      rw [Int.ceil_eq_iff]
      push_cast
      constructor <;> linarith
    rw [hzero, add_zero]

/-- The quotient that is nearest, by the size of the remainder. -/
def nearestQuotient (n d : ℤ) : ℤ :=
  if |d| ≤ 2 * |n.tmod d| then
    if 0 < n.tmod d ↔ 0 < d then n.tdiv d + 1 else n.tdiv d - 1
  else n.tdiv d

theorem tmod_ne_zero_of_half (hd : d ≠ 0) (hhalf : |d| ≤ 2 * |n.tmod d|) : n.tmod d ≠ 0 := by
  intro hzero
  rw [hzero, abs_zero, mul_zero] at hhalf
  exact absurd (abs_pos.mpr hd) (not_lt.mpr hhalf)

theorem nearest_of_lost_pos (hd : d ≠ 0) (hhalf : 1 / 2 ≤ |lost n d|) (hpos : 0 < lost n d) :
    NearestAway ((n : ℚ) / d) (n.tdiv d + 1) := by
  have hlost := abs_lost_lt_one (n := n) hd
  have hquot : (0 : ℚ) ≤ n.tdiv d := by exact_mod_cast tdiv_nonneg_of_lost hpos
  rw [abs_of_pos hpos] at hlost hhalf
  unfold NearestAway
  push_cast
  rw [quotient_eq hd, add_sub_add_left_eq_sub, abs_of_nonpos (by linarith),
    abs_of_nonneg (by linarith), abs_of_nonneg (by linarith)]
  constructor
  · linarith
  · intro _
    linarith

theorem nearest_of_lost_neg (hd : d ≠ 0) (hhalf : 1 / 2 ≤ |lost n d|) (hneg : lost n d < 0) :
    NearestAway ((n : ℚ) / d) (n.tdiv d - 1) := by
  have hlost := abs_lost_lt_one (n := n) hd
  have hquot : (n.tdiv d : ℚ) ≤ 0 := by exact_mod_cast tdiv_nonpos_of_lost hneg
  rw [abs_of_neg hneg] at hlost hhalf
  unfold NearestAway
  push_cast
  rw [quotient_eq hd, add_sub_sub_cancel, abs_of_nonneg (by linarith),
    abs_of_nonpos (by linarith), abs_of_nonpos (by linarith)]
  constructor
  · linarith
  · intro _
    linarith

theorem nearestAway_nearestQuotient (n : ℤ) (hd : d ≠ 0) :
    NearestAway ((n : ℚ) / d) (nearestQuotient n d) := by
  unfold nearestQuotient
  by_cases hhalf : |d| ≤ 2 * |n.tmod d|
  · have hrem := tmod_ne_zero_of_half hd hhalf
    have hlost : lost n d ≠ 0 := mt (lost_eq_zero hd).mp hrem
    rw [if_pos hhalf]
    by_cases hup : 0 < n.tmod d ↔ 0 < d
    · rw [if_pos hup]
      exact nearest_of_lost_pos hd ((half_le_abs_lost hd).mpr hhalf) ((lost_pos hd hrem).mpr hup)
    · rw [if_neg hup]
      have hneg := lt_of_le_of_ne (not_lt.mp (mt (lost_pos hd hrem).mp hup)) hlost
      exact nearest_of_lost_neg hd ((half_le_abs_lost hd).mpr hhalf) hneg
  · have hless := mt (half_le_abs_lost hd).mp hhalf
    rw [if_neg hhalf, quotient_eq hd]
    unfold NearestAway
    rw [add_sub_cancel_left]
    constructor
    · linarith
    · intro hequal
      exact absurd (le_of_eq hequal.symm) hless

end Quotient
end SorobanKit.HostRounding
