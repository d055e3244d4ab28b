import SorobanKit.StakingContract

set_option autoImplicit false

/-!
# What a call does to the stakes

`Move` lists everything a returning call can do, with the guards it passed. Whoever moves a
stake first advances the accumulator and settles the rewards of the staker.
-/
namespace SorobanKit.Staking
open HostBalances HostInteger HostInvocation HostTransfers

/-- The accumulator advanced to `rpt` at ledger `now`. -/
def State.advance (s : State) (now : ℕ) (rpt : ℤ) : State :=
  { s with rewardPerTokenStored := some rpt, lastUpdateLedger := some now }

/-- The amount queued for a withdrawal. -/
def queuedOf (s : State) (staker : Address) : ℤ :=
  part (fun _ req => req.amount) s.unbondRequests staker

inductive Move {house : Address} (i : Invocation house) (s t : State) : Prop where
  | initialized (hnone : s.admin = none) (h : t.lastUpdateLedger = some i.sequence)
  | rated (rewardRate totalStaked rpt : ℤ) (periodEnd : ℕ)
      (hcall : i.call = .setRewardRate rewardRate periodEnd) (hrate : 0 ≤ rewardRate)
      (hend : i.sequence < periodEnd) (htotal : s.totalStaked = some totalStaked)
      (hrpt : projectedRewardPerToken i.sequence totalStaked s = .ok rpt)
      (h : t = { s.advance i.sequence rpt with
        rewardRate := some rewardRate, periodEnd := some periodEnd })
  | staked (staker stakeToken : Address) (amount totalStaked rpt : ℤ)
      (hcall : i.call = .stake staker amount) (hauth : staker ∈ i.auths)
      (htotal : s.totalStaked = some totalStaked)
      (hrpt : projectedRewardPerToken i.sequence totalStaked s = .ok rpt)
      (htoken : s.stakeToken = some stakeToken)
      (haccepts : i.tokens.accepts s.transfers ⟨.stake, stakeToken, staker, house, amount⟩)
      (h : t = { updateReward staker (s.advance i.sequence rpt) with
        stakes := s.stakes.insert staker (entry s.stakes staker + amount),
        totalStaked := some (totalStaked + amount),
        transfers := s.transfers ++ [⟨.stake, stakeToken, staker, house, amount⟩] })
  | unrewarded (staker : Address) (totalStaked rpt : ℤ) (hcall : i.call = .claimRewards staker)
      (htotal : s.totalStaked = some totalStaked)
      (hrpt : projectedRewardPerToken i.sequence totalStaked s = .ok rpt)
      (h : t = updateReward staker (s.advance i.sequence rpt))
  | rewarded (staker rewardToken : Address) (totalStaked rpt : ℤ)
      (hcall : i.call = .claimRewards staker) (htotal : s.totalStaked = some totalStaked)
      (hrpt : projectedRewardPerToken i.sequence totalStaked s = .ok rpt)
      (h : t = { updateReward staker (s.advance i.sequence rpt) with
        rewards := (updateReward staker (s.advance i.sequence rpt)).rewards.insert staker 0,
        transfers := s.transfers ++ [⟨.reward, rewardToken, house, staker,
          entry (updateReward staker (s.advance i.sequence rpt)).rewards staker⟩] })
  | paid (staker stakeToken target : Address) (amount totalStaked rpt : ℤ) (purpose : Purpose)
      (hpaid : (i.call = .unstake staker amount ∧ staker ∈ i.auths ∧ target = staker ∧
          purpose = .unstake) ∨
        (i.call = .slash staker amount ∧ s.slashDestination = some target ∧ purpose = .slash))
      (htotal : s.totalStaked = some totalStaked)
      (hrpt : projectedRewardPerToken i.sequence totalStaked s = .ok rpt)
      (henough : amount ≤ entry s.stakes staker) (htoken : s.stakeToken = some stakeToken)
      (haccepts : i.tokens.accepts s.transfers ⟨purpose, stakeToken, house, target, amount⟩)
      (h : t = { updateReward staker (s.advance i.sequence rpt) with
        stakes := s.stakes.insert staker (entry s.stakes staker - amount),
        totalStaked := some (totalStaked - amount),
        transfers := s.transfers ++ [⟨purpose, stakeToken, house, target, amount⟩] })
  | queued (staker : Address) (amount totalStaked rpt : ℤ) (readyAt : ℕ)
      (hcall : i.call = .unstake staker amount) (hauth : staker ∈ i.auths)
      (htotal : s.totalStaked = some totalStaked)
      (hrpt : projectedRewardPerToken i.sequence totalStaked s = .ok rpt)
      (henough : amount ≤ entry s.stakes staker) (hperiod : s.unbondingPeriod.getD 0 ≠ 0)
      (h : t = { updateReward staker (s.advance i.sequence rpt) with
        stakes := s.stakes.insert staker (entry s.stakes staker - amount),
        totalStaked := some (totalStaked - amount),
        unbondRequests := s.unbondRequests.insert staker ⟨amount, readyAt⟩ })
  | withdrawn (staker stakeToken : Address) (hcall : i.call = .withdraw staker)
      (hauth : staker ∈ i.auths) (htoken : s.stakeToken = some stakeToken)
      (h : t = { s with
        unbondRequests := s.unbondRequests.erase staker,
        transfers := s.transfers ++
          [⟨.withdrawal, stakeToken, house, staker, queuedOf s staker⟩] })

section Specs
variable {house : Address} {env : Env} {s t : State}

theorem accrue_ok {now : ℕ} {totalStaked : ℤ} (h : accrue now totalStaked s = .ok t) :
    ∃ rpt, projectedRewardPerToken now totalStaked s = .ok rpt ∧ t = s.advance now rpt := by
  simp only [accrue, bind_eq_ok, pure_eq_ok] at h
  obtain ⟨rpt, hrpt, rfl⟩ := h
  exact ⟨rpt, hrpt, rfl⟩

theorem takeStake_ok {staker : Address} {amount totalStaked : ℤ}
    (h : takeStake staker amount totalStaked s = .ok t) :
    amount ≤ entry s.stakes staker ∧ t = { s with
      stakes := s.stakes.insert staker (entry s.stakes staker - amount),
      totalStaked := some (totalStaked - amount) } := by
  simp only [takeStake, bind_eq_ok, rejectIf_eq_ok, unwrap_eq_ok, checkedSub_eq_some, pure_eq_ok,
    not_lt] at h
  obtain ⟨_, henough, _, ⟨_, rfl⟩, _, ⟨_, rfl⟩, rfl⟩ := h
  exact ⟨henough, rfl⟩

end Specs

section Moves
variable {house : Address} {i : Invocation house} {s t : State}

theorem stake_move {staker : Address} {amount : ℤ} (hcall : i.call = .stake staker amount)
    (h : stake house i.toEnv staker amount s = .ok t) : Move i s t := by
  simp only [stake, bind_eq_ok, requireAuth_eq_ok, getInstance, okOr_eq_ok, unwrap_eq_ok,
    checkedAdd_eq_some, pure_eq_ok] at h
  obtain ⟨_, hauth, totalStaked, htotal, s₁, haccrue, stakeToken, htoken, s₂, hpay, _, ⟨_, rfl⟩,
    _, ⟨_, rfl⟩, rfl⟩ := h
  obtain ⟨rpt, hrpt, rfl⟩ := accrue_ok haccrue
  obtain ⟨haccepts, rfl⟩ := recordTransfer_eq_ok.mp hpay
  exact .staked staker stakeToken amount totalStaked rpt hcall hauth htotal hrpt htoken haccepts rfl

theorem claimRewards_move {staker : Address} (hcall : i.call = .claimRewards staker)
    (h : claimRewards house i.toEnv staker s = .ok t) : Move i s t := by
  simp only [claimRewards, bind_eq_ok, getInstance, okOr_eq_ok] at h
  obtain ⟨_, _, totalStaked, htotal, s₁, haccrue, h⟩ := h
  obtain ⟨rpt, hrpt, rfl⟩ := accrue_ok haccrue
  unfold payReward at h
  dsimp only at h
  split at h
  · simp only [bind_eq_ok, getInstance, okOr_eq_ok, pure_eq_ok] at h
    obtain ⟨rewardToken, _, s₂, hpay, rfl⟩ := h
    obtain ⟨_, rfl⟩ := recordTransfer_eq_ok.mp hpay
    exact .rewarded staker rewardToken totalStaked rpt hcall htotal hrpt rfl
  · rw [pure_eq_ok] at h
    exact .unrewarded staker totalStaked rpt hcall htotal hrpt h.symm

theorem unstake_move {staker : Address} {amount : ℤ} (hcall : i.call = .unstake staker amount)
    (h : unstake house i.toEnv staker amount s = .ok t) : Move i s t := by
  simp only [unstake, bind_eq_ok, requireAuth_eq_ok, getInstance, okOr_eq_ok] at h
  obtain ⟨_, hauth, totalStaked, htotal, s₁, haccrue, s₂, htake, h⟩ := h
  obtain ⟨rpt, hrpt, rfl⟩ := accrue_ok haccrue
  obtain ⟨henough, rfl⟩ := takeStake_ok htake
  unfold payOrQueue at h
  dsimp only at h
  split at h
  · simp only [bind_eq_ok, getInstance, okOr_eq_ok] at h
    obtain ⟨stakeToken, htoken, hpay⟩ := h
    obtain ⟨haccepts, rfl⟩ := recordTransfer_eq_ok.mp hpay
    exact .paid staker stakeToken staker amount totalStaked rpt .unstake
      (.inl ⟨hcall, hauth, rfl, rfl⟩) htotal hrpt henough htoken haccepts rfl
  · next hperiod =>
    simp only [bind_eq_ok, pure_eq_ok] at h
    obtain ⟨readyAt, _, rfl⟩ := h
    exact .queued staker amount totalStaked rpt readyAt hcall hauth htotal hrpt henough hperiod rfl

theorem withdraw_move {staker : Address} (hcall : i.call = .withdraw staker)
    (h : withdraw house i.toEnv staker s = .ok t) : Move i s t := by
  simp only [withdraw, bind_eq_ok, requireAuth_eq_ok, getInstance, okOr_eq_ok, pure_eq_ok] at h
  obtain ⟨_, hauth, req, hreq, _, _, stakeToken, htoken, s₁, hpay, rfl⟩ := h
  obtain ⟨_, rfl⟩ := recordTransfer_eq_ok.mp hpay
  refine .withdrawn staker stakeToken hcall hauth htoken ?_
  rw [queuedOf, part_of_lookup hreq]

theorem slash_move {staker : Address} {amount : ℤ} (hcall : i.call = .slash staker amount)
    (h : slash house i.toEnv staker amount s = .ok t) : Move i s t := by
  simp only [slash, bind_eq_ok, getInstance, okOr_eq_ok] at h
  obtain ⟨admin, _, _, _, totalStaked, htotal, s₁, haccrue, s₂, htake, dest, hdest, stakeToken,
    htoken, hpay⟩ := h
  obtain ⟨rpt, hrpt, rfl⟩ := accrue_ok haccrue
  obtain ⟨henough, rfl⟩ := takeStake_ok htake
  obtain ⟨haccepts, rfl⟩ := recordTransfer_eq_ok.mp hpay
  exact .paid staker stakeToken dest amount totalStaked rpt .slash (.inr ⟨hcall, hdest, rfl⟩) htotal
    hrpt henough htoken haccepts rfl

theorem setRewardRate_move {rewardRate : ℤ} {periodEnd : ℕ}
    (hcall : i.call = .setRewardRate rewardRate periodEnd)
    (h : setRewardRate i.toEnv rewardRate periodEnd s = .ok t) : Move i s t := by
  simp only [setRewardRate, bind_eq_ok, rejectIf_eq_ok, getInstance, okOr_eq_ok, pure_eq_ok, not_lt,
    not_le] at h
  obtain ⟨admin, _, _, _, _, hrate, _, hend, totalStaked, htotal, s₁, haccrue, rfl⟩ := h
  obtain ⟨rpt, hrpt, rfl⟩ := accrue_ok haccrue
  exact .rated rewardRate totalStaked rpt periodEnd hcall hrate hend htotal hrpt rfl

/-- Every returning call is one of the moves. -/
theorem exec_move (h : exec i s = .ok t) : Move i s t := by
  unfold exec at h
  cases hcall : i.call with
  | initializeStaking =>
    simp only [hcall, initializeStaking, bind_eq_ok, rejectIf_eq_ok, pure_eq_ok] at h
    obtain ⟨_, hnone, _, _, rfl⟩ := h
    exact .initialized (by simpa using hnone) rfl
  | setRewardRate rewardRate periodEnd =>
    rw [hcall] at h
    exact setRewardRate_move hcall h
  | stake staker amount =>
    rw [hcall] at h
    exact stake_move hcall h
  | claimRewards staker =>
    rw [hcall] at h
    exact claimRewards_move hcall h
  | unstake staker amount =>
    rw [hcall] at h
    exact unstake_move hcall h
  | withdraw staker =>
    rw [hcall] at h
    exact withdraw_move hcall h
  | slash staker amount =>
    rw [hcall] at h
    exact slash_move hcall h

end Moves

end SorobanKit.Staking
