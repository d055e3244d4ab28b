import Mathlib.Data.List.Forall2
import SorobanKit.SwapContract

set_option autoImplicit false

/-!
# Fees of a trade in slices

The fee of a fill is a share of its amount, rounded down, and one unit where that would be nothing.
So every fee is more than half of the exact share, and slicing a trade saves at most half of its fee.
-/
namespace SorobanKit.Swap
open CommonMath HostInvocation

section Fees
variable {feeBps : ℕ} {amount fee : ℤ} {amounts fees : List ℤ}

theorem fee_eq (hbps : feeBps ≠ 0) (hamount : 0 < amount)
    (h : calculateAndValidateFee amount feeBps = .ok fee) :
    fee ≤ amount ∧ fee = if amount * feeBps / 10000 = 0 then 1 else amount * feeBps / 10000 := by
  have hproduct : 0 ≤ amount * feeBps := Int.mul_nonneg (by omega) (Int.natCast_nonneg feeBps)
  unfold calculateAndValidateFee at h
  rw [if_neg hbps] at h
  simp only [bind_eq_ok, okOr_eq_ok, rejectIf_eq_ok, pure_eq_ok] at h
  obtain ⟨raw, hraw, _, hcovered, rfl⟩ := h
  have hshare : raw = amount * feeBps / 10000 := by
    rw [mulDiv_toOption hraw, bpsDenominator, Int.tdiv_eq_ediv_of_nonneg hproduct]
  rw [← hshare]
  exact ⟨Int.not_lt.mp hcovered, by simp only [hamount, and_true]⟩

theorem fee_bounds_of_pos (hbps : feeBps ≠ 0) (hamount : 0 < amount)
    (h : calculateAndValidateFee amount feeBps = .ok fee) : 1 ≤ fee ∧ fee ≤ amount := by
  have hproduct : 0 ≤ amount * feeBps := Int.mul_nonneg (by omega) (Int.natCast_nonneg feeBps)
  obtain ⟨hle, hfee⟩ := fee_eq hbps hamount h
  split at hfee <;> omega

theorem share_lt_fee (hbps : feeBps ≠ 0) (hamount : 0 < amount)
    (h : calculateAndValidateFee amount feeBps = .ok fee) : amount * feeBps < 20000 * fee := by
  have hproduct : 0 ≤ amount * feeBps := Int.mul_nonneg (by omega) (Int.natCast_nonneg feeBps)
  obtain ⟨_, hfee⟩ := fee_eq hbps hamount h
  split at hfee <;> omega

theorem fee_le_share (hbps : feeBps ≠ 0) (hamount : 0 < amount)
    (h : calculateAndValidateFee amount feeBps = .ok fee) :
    fee = 1 ∨ 10000 * fee ≤ amount * feeBps := by
  have hproduct : 0 ≤ amount * feeBps := Int.mul_nonneg (by omega) (Int.natCast_nonneg feeBps)
  obtain ⟨_, hfee⟩ := fee_eq hbps hamount h
  split at hfee <;> omega

/-- The amounts of a sliced trade with the fees that are charged on them. -/
abbrev Sliced (feeBps : ℕ) (amounts fees : List ℤ) : Prop :=
  List.Forall₂ (fun amount fee => calculateAndValidateFee amount feeBps = .ok fee) amounts fees

theorem Sliced.bounds (h : Sliced feeBps amounts fees) (hbps : feeBps ≠ 0)
    (hamounts : ∀ amount ∈ amounts, 0 < amount) :
    List.Forall₂ (fun amount fee => 1 ≤ fee ∧ fee ≤ amount) amounts fees := by
  induction h with
  | nil => exact List.Forall₂.nil
  | cons hfee hrest ih =>
    obtain ⟨hamount, hamounts⟩ := List.forall_mem_cons.mp hamounts
    exact List.Forall₂.cons (fee_bounds_of_pos hbps hamount hfee) (ih hamounts)

theorem sum_bounds_of_bounds
    (h : List.Forall₂ (fun amount fee : ℤ => 1 ≤ fee ∧ fee ≤ amount) amounts fees) :
    fees.length ≤ fees.sum ∧ fees.sum ≤ amounts.sum := by
  induction h with
  | nil => simp
  | cons hfee hrest ih =>
    simp only [List.sum_cons, List.length_cons]
    push_cast
    omega

theorem Sliced.share_le (h : Sliced feeBps amounts fees) (hbps : feeBps ≠ 0)
    (hamounts : ∀ amount ∈ amounts, 0 < amount) : amounts.sum * feeBps ≤ 20000 * fees.sum := by
  induction h with
  | nil => simp
  | cons hfee hrest ih =>
    obtain ⟨hamount, hamounts⟩ := List.forall_mem_cons.mp hamounts
    have hfirst := share_lt_fee hbps hamount hfee
    have hothers := ih hamounts
    rw [List.sum_cons, List.sum_cons, Int.add_mul]
    omega

/-- However a trade is sliced, every fee is at least one unit and at most its amount, and the fees
    together are at least half of the fee of the whole. -/
theorem sliced_fees (hlow : 1 ≤ feeBps) (hhigh : feeBps ≤ 10000) (hsome : amounts ≠ [])
    (hamounts : ∀ amount ∈ amounts, 0 < amount) (hfees : Sliced feeBps amounts fees) {whole : ℤ}
    (hwhole : calculateAndValidateFee amounts.sum feeBps = .ok whole) :
    List.Forall₂ (fun amount fee => 1 ≤ fee ∧ fee ≤ amount) amounts fees ∧
      fees.sum ≤ amounts.sum ∧ whole ≤ 2 * fees.sum := by
  have hbps : feeBps ≠ 0 := by omega
  have hbounds := hfees.bounds hbps hamounts
  obtain ⟨hcount, hsum⟩ := sum_bounds_of_bounds hbounds
  have hlength : 0 < fees.length := by
    rw [← hfees.length_eq]
    exact List.length_pos_iff.mpr hsome
  have htotal : 0 < amounts.sum := by omega
  have hshare := hfees.share_le hbps hamounts
  refine ⟨hbounds, hsum, ?_⟩
  rcases fee_le_share hbps htotal hwhole with hunit | hle <;> omega

end Fees

/-- A hundred units at one percent in three slices. -/
theorem sliced_fees_demo :
    Sliced 100 [50, 49, 1] [1, 1, 1] ∧ calculateAndValidateFee 100 100 = .ok 1 ∧
      (1 : ℤ) ≤ 2 * ([1, 1, 1] : List ℤ).sum := by
  have hfees : Sliced 100 [50, 49, 1] [1, 1, 1] := by
    refine .cons rfl (.cons rfl (.cons rfl .nil))
  have hwhole : calculateAndValidateFee ([50, 49, 1] : List ℤ).sum 100 = .ok 1 := rfl
  exact ⟨hfees, hwhole, (sliced_fees (by decide) (by decide) (by decide) (by decide) hfees hwhole).2.2⟩

end SorobanKit.Swap
