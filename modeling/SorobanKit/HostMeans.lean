import Mathlib.Algebra.Order.Ring.Int
import SorobanKit.HostInteger

set_option autoImplicit false

/-!
# Weighted means in saturating arithmetic

A weighted mean lies between the values it is taken of, and rounding it toward zero keeps it there. A
sum that saturates on the way is exact if nothing leaves the range, and for terms of one sign it is the
exact sum, saturated at the end.
-/
namespace SorobanKit.HostMeans
open HostInteger

section Means
variable {xs : List (ℤ × ℕ)} {low high sum sum' total : ℤ}

/-- The sum of the values, each as often as it weighs. -/
def weightedSum (xs : List (ℤ × ℕ)) : ℤ := (xs.map fun x => x.1 * (x.2 : ℤ)).sum

def totalWeight (xs : List (ℤ × ℕ)) : ℕ := (xs.map Prod.snd).sum

@[simp] theorem weightedSum_nil : weightedSum [] = 0 := rfl

@[simp] theorem weightedSum_cons (x : ℤ × ℕ) (xs : List (ℤ × ℕ)) :
    weightedSum (x :: xs) = x.1 * x.2 + weightedSum xs := List.sum_cons

@[simp] theorem totalWeight_nil : totalWeight [] = 0 := rfl

@[simp] theorem totalWeight_cons (x : ℤ × ℕ) (xs : List (ℤ × ℕ)) :
    totalWeight (x :: xs) = x.2 + totalWeight xs := List.sum_cons

theorem totalWeight_cast (xs : List (ℤ × ℕ)) :
    (xs.map fun x => (x.2 : ℤ)).sum = totalWeight xs := by
  induction xs with
  | nil => rfl
  | cons x xs ih => rw [List.map_cons, List.sum_cons, ih, totalWeight_cons, Nat.cast_add]

theorem le_weightedSum (h : ∀ x ∈ xs, low ≤ x.1) : low * totalWeight xs ≤ weightedSum xs := by
  induction xs with
  | nil => simp
  | cons x xs ih =>
    obtain ⟨hx, hxs⟩ := List.forall_mem_cons.mp h
    have hterm : low * x.2 ≤ x.1 * x.2 := Int.mul_le_mul_of_nonneg_right hx (Int.natCast_nonneg _)
    have hrest := ih hxs
    rw [weightedSum_cons, totalWeight_cons, Nat.cast_add, mul_add]
    omega

theorem weightedSum_le (h : ∀ x ∈ xs, x.1 ≤ high) : weightedSum xs ≤ high * totalWeight xs := by
  induction xs with
  | nil => simp
  | cons x xs ih =>
    obtain ⟨hx, hxs⟩ := List.forall_mem_cons.mp h
    have hterm : x.1 * x.2 ≤ high * x.2 := Int.mul_le_mul_of_nonneg_right hx (Int.natCast_nonneg _)
    have hrest := ih hxs
    rw [weightedSum_cons, totalWeight_cons, Nat.cast_add, mul_add]
    omega

theorem le_tdiv_of_mul_le (htotal : 0 < total) (h : low * total ≤ sum) : low ≤ sum.tdiv total := by
  have hmono := Int.tdiv_le_tdiv htotal h
  rwa [Int.mul_tdiv_cancel _ htotal.ne'] at hmono

theorem tdiv_le_of_le_mul (htotal : 0 < total) (h : sum ≤ high * total) : sum.tdiv total ≤ high := by
  have hmono := Int.tdiv_le_tdiv htotal h
  rwa [Int.mul_tdiv_cancel _ htotal.ne'] at hmono

/-- A mean is no lower than all of its values, and no higher. -/
theorem mean_between (hweight : 0 < totalWeight xs) :
    (∃ x ∈ xs, x.1 ≤ (weightedSum xs).tdiv (totalWeight xs)) ∧
      ∃ x ∈ xs, (weightedSum xs).tdiv (totalWeight xs) ≤ x.1 := by
  have htotal : (0 : ℤ) < totalWeight xs := Int.natCast_pos.mpr hweight
  constructor
  · by_contra! hhigh
    have hle := le_tdiv_of_mul_le htotal (le_weightedSum fun x hx => Int.add_one_le_of_lt (hhigh x hx))
    omega
  · by_contra! hlow
    have hle := tdiv_le_of_le_mul htotal (weightedSum_le fun x hx => Int.le_sub_one_of_lt (hlow x hx))
    omega

end Means

section Saturation
variable {xs : List (ℤ × ℕ)} {sum total : ℤ}

def accumulate (sum : ℤ) (x : ℤ × ℕ) : ℤ := saturatingAdd sum (saturatingMul x.1 x.2)

/-- No term and no sum of terms leaves the range. -/
def Fits : ℤ → List (ℤ × ℕ) → Prop
  | _, [] => True
  | sum, x :: xs => InI128 (x.1 * x.2) ∧ InI128 (sum + x.1 * x.2) ∧ Fits (sum + x.1 * x.2) xs

theorem Fits.foldl (h : Fits sum xs) : xs.foldl accumulate sum = sum + weightedSum xs := by
  induction xs generalizing sum with
  | nil => simp
  | cons x xs ih =>
    obtain ⟨hterm, hsum, hrest⟩ := h
    have hstep : accumulate sum x = sum + x.1 * x.2 := by
      rw [accumulate, saturatingMul, saturate_of_inI128 hterm, saturatingAdd, saturate_of_inI128 hsum]
    rw [List.foldl_cons, hstep, ih hrest, weightedSum_cons, add_assoc]

theorem saturate_inI128 (x : ℤ) : InI128 (saturate x) := by
  unfold saturate InI128
  omega

theorem foldl_of_nonneg (hsum : 0 ≤ sum) (hfits : InI128 sum) (h : ∀ x ∈ xs, 0 ≤ x.1) :
    xs.foldl accumulate sum = saturate (sum + weightedSum xs) := by
  induction xs generalizing sum with
  | nil => rw [List.foldl_nil, weightedSum_nil, add_zero, saturate_of_inI128 hfits]
  | cons x xs ih =>
    obtain ⟨hx, hxs⟩ := List.forall_mem_cons.mp h
    have hterm : 0 ≤ x.1 * x.2 := Int.mul_nonneg hx (Int.natCast_nonneg _)
    have hrest : 0 ≤ weightedSum xs := by simpa using le_weightedSum hxs
    have hnext : 0 ≤ accumulate sum x := by
      unfold accumulate saturatingAdd saturatingMul saturate
      omega
    rw [List.foldl_cons, ih hnext (saturate_inI128 _) hxs, weightedSum_cons]
    unfold accumulate saturatingAdd saturatingMul saturate
    omega

theorem foldl_of_nonpos (hsum : sum ≤ 0) (hfits : InI128 sum) (h : ∀ x ∈ xs, x.1 ≤ 0) :
    xs.foldl accumulate sum = saturate (sum + weightedSum xs) := by
  induction xs generalizing sum with
  | nil => rw [List.foldl_nil, weightedSum_nil, add_zero, saturate_of_inI128 hfits]
  | cons x xs ih =>
    obtain ⟨hx, hxs⟩ := List.forall_mem_cons.mp h
    have hterm : x.1 * x.2 ≤ 0 := Int.mul_nonpos_of_nonpos_of_nonneg hx (Int.natCast_nonneg _)
    have hrest : weightedSum xs ≤ 0 := by simpa using weightedSum_le hxs
    have hnext : accumulate sum x ≤ 0 := by
      unfold accumulate saturatingAdd saturatingMul saturate
      omega
    rw [List.foldl_cons, ih hnext (saturate_inI128 _) hxs, weightedSum_cons]
    unfold accumulate saturatingAdd saturatingMul saturate
    omega

/-- Saturation does not show in a quotient that is one of a value in range. -/
theorem tdiv_saturate_iff (htotal : 0 < total) :
    (saturate sum).tdiv total = sum.tdiv total ↔
      (-170141183460469231731687303715884105728 : ℤ).tdiv total ≤ sum.tdiv total ∧
        sum.tdiv total ≤ (170141183460469231731687303715884105727 : ℤ).tdiv total := by
  have hrange := saturate_inI128 sum
  constructor
  · intro heq
    rw [← heq]
    exact ⟨Int.tdiv_le_tdiv htotal hrange.1, Int.tdiv_le_tdiv htotal hrange.2⟩
  · rintro ⟨hlow, hhigh⟩
    rcases lt_or_ge sum (-170141183460469231731687303715884105728) with hless | hge
    · have hsat : saturate sum = -170141183460469231731687303715884105728 := by
        unfold saturate
        omega
      rw [hsat]
      exact Int.le_antisymm hlow (Int.tdiv_le_tdiv htotal hless.le)
    rcases lt_or_ge 170141183460469231731687303715884105727 sum with hmore | hle
    · have hsat : saturate sum = 170141183460469231731687303715884105727 := by
        unfold saturate
        omega
      rw [hsat]
      exact Int.le_antisymm (Int.tdiv_le_tdiv htotal hmore.le) hhigh
    · rw [saturate_of_inI128 ⟨hge, hle⟩]

end Saturation

section Steps
variable {x y d share whole : ℤ}

theorem saturate_le_of_nonneg (h : 0 ≤ x) : 0 ≤ saturate x ∧ saturate x ≤ x := by
  unfold saturate
  omega

theorem le_saturate_of_nonpos (h : x ≤ 0) : x ≤ saturate x ∧ saturate x ≤ 0 := by
  unfold saturate
  omega

theorem share_of_nonneg (hd : 0 ≤ d) (hshare : 0 ≤ share) (hle : share ≤ whole) (hwhole : 0 < whole) :
    0 ≤ (saturatingMul d share).tdiv whole ∧ (saturatingMul d share).tdiv whole ≤ d := by
  obtain ⟨hnonneg, hsat⟩ := saturate_le_of_nonneg (Int.mul_nonneg hd hshare)
  refine ⟨Int.tdiv_nonneg hnonneg hwhole.le, tdiv_le_of_le_mul hwhole ?_⟩
  exact hsat.trans (Int.mul_le_mul_of_nonneg_left hle hd)

theorem share_of_nonpos (hd : d ≤ 0) (hshare : 0 ≤ share) (hle : share ≤ whole) (hwhole : 0 < whole) :
    d ≤ (saturatingMul d share).tdiv whole ∧ (saturatingMul d share).tdiv whole ≤ 0 := by
  obtain ⟨hsat, hnonpos⟩ := le_saturate_of_nonpos (Int.mul_nonpos_of_nonpos_of_nonneg hd hshare)
  refine ⟨le_tdiv_of_mul_le hwhole ?_, tdiv_le_of_le_mul hwhole ?_⟩
  · exact (Int.mul_le_mul_of_nonpos_left hd hle).trans hsat
  · rw [zero_mul]
    exact hnonpos

/-- A step of a share of the way to a value ends between the two. -/
theorem step_between (hx : InI128 x) (hy : InI128 y) (hshare : 0 ≤ share) (hle : share ≤ whole)
    (hwhole : 0 < whole) :
    min x y ≤ saturatingAdd x ((saturatingMul (saturatingSub y x) share).tdiv whole) ∧
      saturatingAdd x ((saturatingMul (saturatingSub y x) share).tdiv whole) ≤ max x y := by
  obtain ⟨hxlow, hxhigh⟩ := hx
  obtain ⟨hylow, hyhigh⟩ := hy
  rcases Int.le_total x y with hup | hdown
  · obtain ⟨hd, hdle⟩ := saturate_le_of_nonneg (show 0 ≤ y - x by omega)
    obtain ⟨hnonneg, hbound⟩ := share_of_nonneg hd hshare hle hwhole
    rw [← saturatingSub] at hbound hnonneg hdle
    rw [saturatingAdd, saturate_of_inI128 ⟨by omega, by omega⟩]
    omega
  · obtain ⟨hdle, hd⟩ := le_saturate_of_nonpos (show y - x ≤ 0 by omega)
    obtain ⟨hbound, hnonpos⟩ := share_of_nonpos hd hshare hle hwhole
    rw [← saturatingSub] at hbound hnonpos hdle
    rw [saturatingAdd, saturate_of_inI128 ⟨by omega, by omega⟩]
    omega

end Steps

end SorobanKit.HostMeans
