import Mathlib.Algebra.Order.BigOperators.Group.List
import Mathlib.Algebra.Order.Group.Nat
import SorobanKit.TimelockContract

set_option autoImplicit false

/-!
# What a call does to a timelock

`Move` lists everything a returning call can do to a timelock that does not stake, with the
guards it passed. Both kinds of timelock, with tranches and with several deposits, are
followed through it.
-/
namespace SorobanKit.Timelock
open HostInteger HostInvocation HostTransfers

/-- The timelock does not stake, and the keys that only `reschedule_tranche` reads are unset. -/
structure Plain (s : State) : Prop where
  staking : s.stakingContract = none
  tranches : s.tranches = none

inductive Move (self : Address) (i : Invocation) (s t : State) : Prop where
  | started (hnone : s.state = none)
  | deposited (token admin : Address) (amount : I128) (releaseLedger : ℕ)
      (hcall : i.call = .deposit token amount releaseLedger) (hactive : s.state = some .active)
      (hpos : 0 < amount.1) (hrange : InI128 ((s.lockedBalance token).getD 0 + amount.1))
      (hadmin : s.admin = some admin)
      (h : t = { s with
        lockedBalance := Function.update s.lockedBalance token
          (some ((s.lockedBalance token).getD 0 + amount.1)),
        tokenReleaseLedger :=
          if releaseLedger < (s.tokenReleaseLedger token).getD u32Max then
            Function.update s.tokenReleaseLedger token (some releaseLedger)
          else s.tokenReleaseLedger,
        tokenCount := t.tokenCount, tokenAt := t.tokenAt,
        transfers := s.transfers ++ [⟨.lock releaseLedger, token, admin, self, amount.1⟩] })
  | swept (token beneficiary : Address) (count : ℕ) (sweep : Sweep)
      (hcall : i.call = .release token) (hactive : s.state = some .active)
      (hcount : s.trancheCount = some count)
      (hsweep : (List.range count).foldlM (sweepStep i.toEnv s)
        { trancheReleased := s.trancheReleased } = .ok sweep)
      (hbeneficiary : s.beneficiary = some beneficiary)
      (h : t = { s with
        trancheReleased := sweep.trancheReleased,
        state := if sweep.allReleased then some .released else s.state,
        transfers := s.transfers ++ [⟨.payout, token, self, beneficiary, sweep.totalReleased⟩] })
  | released (token beneficiary : Address) (releaseLedger : ℕ) (amount : ℤ)
      (hcall : i.call = .release token) (hactive : s.state = some .active)
      (hcount : s.trancheCount = none) (hledger : s.releaseLedger = some releaseLedger)
      (hle : releaseLedger ≤ i.sequence) (hamount : s.amount = some amount)
      (hbeneficiary : s.beneficiary = some beneficiary)
      (h : t = { s with
        state := some .released,
        transfers := s.transfers ++ [⟨.payout, token, self, beneficiary, amount⟩] })
  | claimed (token beneficiary : Address) (amount : I128) (claimable : ℤ)
      (hcall : i.call = .releasePartial token amount) (hactive : s.state = some .active)
      (hpos : 0 < amount.1) (hclaimable : claimableAmountInternal i.toEnv token s = .ok claimable)
      (hle : amount.1 ≤ claimable) (hbeneficiary : s.beneficiary = some beneficiary)
      (h : t = { s with
        lockedBalance := Function.update s.lockedBalance token
          (some (saturatingSub ((s.lockedBalance token).getD 0) amount.1)),
        transfers := s.transfers ++ [⟨.payout, token, self, beneficiary, amount.1⟩] })
  | cancelled (admin token : Address) (amount refund : ℤ) (hcall : i.call = .cancel)
      (hactive : s.state = some .active) (htoken : s.token = some token)
      (hamount : s.amount = some amount) (hrefund : refundAmount amount s = .ok refund)
      (hadmin : s.admin = some admin)
      (h : t = { s with
        state := some .cancelled,
        transfers := s.transfers ++ [⟨.refund, token, self, admin, refund⟩] })
  | reassigned (newBeneficiary : Address) (hcall : i.call = .reassignBeneficiary newBeneficiary)
      (h : t = { s with beneficiary := some newBeneficiary })
  | asked (token : Address) (hcall : i.call = .claimableAmount token) (h : t = s)

section Specs
variable {self : Address} {env : Env} {s t : State}

@[simp] theorem requireActive_eq_ok {u : Unit} :
    requireActive s = .ok u ↔ s.state = some .active := by
  unfold requireActive
  rw [bind_eq_ok]
  constructor
  · rintro ⟨state, hstate, h⟩
    rw [getRequired, okOr_eq_ok] at hstate
    cases state with
    | active => exact hstate
    | released | cancelled => cases h
  · intro hstate
    exact ⟨.active, okOr_eq_ok.mpr hstate, rfl⟩

theorem registerToken_ok {token : Address} (h : registerToken token s = .ok t) :
    t = { s with tokenCount := t.tokenCount, tokenAt := t.tokenAt } := by
  simp only [registerToken] at h
  split at h
  · rw [← pure_eq_ok.mp h]
  · simp only [bind_eq_ok, pure_eq_ok] at h
    obtain ⟨_, _, rfl⟩ := h
    rfl

theorem unstakeAll_ok (hplain : Plain s) : unstakeAll self env s = .ok s := by
  unfold unstakeAll
  rw [hplain.staking]
  rfl

end Specs

section Moves
variable {self : Address} {i : Invocation} {s t : State}

theorem deposit_move {token : Address} {amount : I128} {releaseLedger : ℕ}
    (hcall : i.call = .deposit token amount releaseLedger)
    (h : deposit self i.toEnv token amount releaseLedger s = .ok t) : Move self i s t := by
  simp only [deposit, bind_eq_ok, requireActive_eq_ok, rejectIf_eq_ok, getRequired, okOr_eq_ok,
    checkedAdd_eq_some, not_le] at h
  obtain ⟨_, hactive, _, hpos, _, _, admin, hadmin, _, _, s₁, htransfer, _, ⟨hrange, rfl⟩, s₂,
    hregister, h⟩ := h
  have hs₁ := recordTransfer_ok htransfer
  subst hs₁
  have hs₂ := registerToken_ok hregister
  refine .deposited token admin amount releaseLedger hcall hactive hpos hrange hadmin ?_
  rw [hs₂] at h
  split at h
  · next hearlier =>
    rw [pure_eq_ok] at h
    rw [if_pos hearlier, ← h]
  · next hlater =>
    rw [pure_eq_ok] at h
    rw [if_neg hlater, ← h]

theorem release_move {token : Address} (hplain : Plain s) (hcall : i.call = .release token)
    (h : release self i.toEnv token s = .ok t) : Move self i s t := by
  simp only [release, bind_eq_ok, requireActive_eq_ok, unstakeAll_ok hplain, getRequired,
    okOr_eq_ok] at h
  obtain ⟨_, hactive, beneficiary, hbeneficiary, _, hsame, h⟩ := h
  cases hsame
  split at h
  · next count hcount =>
    simp only [releaseTranches, bind_eq_ok, rejectIf_eq_ok] at h
    obtain ⟨sweep, hsweep, _, _, h⟩ := h
    refine .swept token beneficiary count sweep hcall hactive hcount hsweep hbeneficiary ?_
    rw [recordTransfer_ok h]
    cases sweep.allReleased <;> rfl
  · next hcount =>
    simp only [releaseAll, bind_eq_ok, getRequired, okOr_eq_ok, rejectIf_eq_ok, not_lt] at h
    obtain ⟨releaseLedger, hledger, _, hle, amount, hamount, h⟩ := h
    refine .released token beneficiary releaseLedger amount hcall hactive hcount hledger hle hamount
      hbeneficiary ?_
    split at h
    · next hstaking =>
      rw [hplain.staking] at hstaking
      cases hstaking
    · exact recordTransfer_ok h

theorem releasePartial_move {token : Address} {amount : I128}
    (hcall : i.call = .releasePartial token amount)
    (h : releasePartial self i.toEnv token amount s = .ok t) : Move self i s t := by
  simp only [releasePartial, bind_eq_ok, requireActive_eq_ok, rejectIf_eq_ok, getRequired,
    okOr_eq_ok, not_le, not_lt] at h
  obtain ⟨_, hactive, _, hpos, beneficiary, hbeneficiary, claimable, hclaimable, _, hle, h⟩ := h
  exact .claimed token beneficiary amount claimable hcall hactive hpos hclaimable hle hbeneficiary
    (recordTransfer_ok h)

theorem cancel_move (hcall : i.call = .cancel) (h : cancel self i.toEnv s = .ok t) :
    Move self i s t := by
  simp only [cancel, bind_eq_ok, requireActive_eq_ok, getRequired, okOr_eq_ok] at h
  obtain ⟨admin, hadmin, _, _, _, hactive, token, htoken, amount, hamount, refund, hrefund, h⟩ := h
  exact .cancelled admin token amount refund hcall hactive htoken hamount hrefund hadmin
    (recordTransfer_ok h)

/-- Staking calls fail without a staking contract, and `reschedule_tranche` always does. -/
theorem exec_move (hplain : Plain s) (h : exec self i s = .ok t) : Move self i s t := by
  unfold exec at h
  cases hcall : i.call <;> simp only [hcall] at h
  case initializeTimelock =>
    simp only [initializeTimelock, bind_eq_ok, rejectIf_eq_ok] at h
    obtain ⟨_, hnone, _⟩ := h
    exact .started (by simpa using hnone)
  case initializeWithStaking =>
    simp only [initializeWithStaking, bind_eq_ok, rejectIf_eq_ok] at h
    obtain ⟨_, hnone, _⟩ := h
    exact .started (by simpa using hnone)
  case initializeWithTranches =>
    simp only [initializeWithTranches, bind_eq_ok, rejectIf_eq_ok] at h
    obtain ⟨_, hnone, _⟩ := h
    exact .started (by simpa using hnone)
  case depositLockedBalance =>
    simp only [depositLockedBalance, bind_eq_ok, okOr_eq_ok, hplain.staking] at h
    obtain ⟨_, _, _, hstaking, _⟩ := h
    cases hstaking
  case withdrawAndUnbond =>
    simp only [withdrawAndUnbond, bind_eq_ok, okOr_eq_ok, hplain.staking] at h
    obtain ⟨_, _, _, hstaking, _⟩ := h
    cases hstaking
  case deposit => exact deposit_move hcall h
  case release => exact release_move hplain hcall h
  case releasePartial => exact releasePartial_move hcall h
  case claimableAmount token =>
    simp only [bind_eq_ok, pure_eq_ok] at h
    obtain ⟨_, _, rfl⟩ := h
    exact .asked token hcall rfl
  case cancel => exact cancel_move hcall h
  case rescheduleTranche =>
    simp only [rescheduleTranche, bind_eq_ok, getRequired, okOr_eq_ok, hplain.tranches] at h
    obtain ⟨_, _, _, _, _, _, _, _, _, htranches, _⟩ := h
    cases htranches
  case reassignBeneficiary newBeneficiary =>
    simp only [reassignBeneficiary, bind_eq_ok, pure_eq_ok] at h
    obtain ⟨_, _, _, _, _, _, _, _, rfl⟩ := h
    exact .reassigned newBeneficiary hcall rfl

end Moves

/-- Some ledger bounds all those of a run. -/
theorem sequence_le_sum (is : List Invocation) : ∀ i ∈ is, i.sequence ≤ (is.map (·.sequence)).sum :=
  fun _ hi => List.le_sum_of_mem (List.mem_map_of_mem hi)

/-- The locked balance: deposits add to it and partial releases take from it. -/
def unclaimed (s : State) (token : Address) : ℤ := (s.lockedBalance token).getD 0

/-- What went to beneficiaries in `token`. -/
def paid (token : Address) (log : List (Transfer Purpose)) : ℤ :=
  sumOf (fun x => x.purpose = .payout ∧ x.token = token) log

/-- What went back to the admin in `token`. -/
def refunded (token : Address) (log : List (Transfer Purpose)) : ℤ :=
  sumOf (fun x => x.purpose = .refund ∧ x.token = token) log

@[simp] theorem paid_append (token : Address) (xs ys : List (Transfer Purpose)) :
    paid token (xs ++ ys) = paid token xs + paid token ys := sumOf_append ..

@[simp] theorem refunded_append (token : Address) (xs ys : List (Transfer Purpose)) :
    refunded token (xs ++ ys) = refunded token xs + refunded token ys := sumOf_append ..

@[simp] theorem paid_singleton (token : Address) (x : Transfer Purpose) :
    paid token [x] = if x.purpose = .payout ∧ x.token = token then x.amount else 0 := by
  simp [paid]

@[simp] theorem refunded_singleton (token : Address) (x : Transfer Purpose) :
    refunded token [x] = if x.purpose = .refund ∧ x.token = token then x.amount else 0 := by
  simp [refunded]

end SorobanKit.Timelock
