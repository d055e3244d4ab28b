import SorobanKit.CommonMath
import SorobanKit.HostBalances
import SorobanKit.HostInvocation
import SorobanKit.HostRuns
import SorobanKit.HostTransfers

set_option autoImplicit false

/-!
# Staking with linear emission and unbonding

`transfers` is the log of the token transfers that returned. The source interleaves two
versions of `stake`, `claim_rewards` and `reward_per_token_stored` with a first `slash`; the
functions here are the versions around it, and `slash` is the second one. Events, TTL bumps
and the counters that no function reads are left out.
-/
namespace SorobanKit.Staking
open CommonMath HostBalances HostInteger HostInvocation HostTransfers

inductive StakingError where
  | alreadyInitialized
  | notInitialized
  | insufficientStake
  | unbondingNotComplete
  | noUnbondRequest
  | invalidRewardRate
  | invalidPeriodEnd
  | overflow
  deriving DecidableEq, Repr

def rewardScale : ℤ := 1000000000000

structure UnbondRequest where
  amount : ℤ
  readyAt : ℕ
  deriving DecidableEq, Repr

/-- Why the contract moves tokens. -/
inductive Purpose where
  | stake
  | unstake
  | withdrawal
  | slash
  | reward
  deriving DecidableEq, Repr

structure State where
  admin : Option Address := none
  stakeToken : Option Address := none
  rewardToken : Option Address := none
  totalStaked : Option ℤ := none
  unbondingPeriod : Option ℕ := none
  slashDestination : Option Address := none
  rewardPerTokenStored : Option ℤ := none
  rewardRate : Option ℤ := none
  periodEnd : Option ℕ := none
  lastUpdateLedger : Option ℕ := none
  stakes : Balances Address := ∅
  rewardPerTokenPaid : Balances Address := ∅
  rewards : Balances Address := ∅
  unbondRequests : Finmap (fun _ : Address => UnbondRequest) := ∅
  transfers : List (Transfer Purpose) := []

def State.empty : State := {}

/-- One invocation sees the ledger, its authorizations and what token contracts answer. -/
structure Env extends Context where
  tokens : TokenReplies Purpose

def rewardPerToken (s : State) : ℤ := s.rewardPerTokenStored.getD 0
def rewardRate (s : State) : ℤ := s.rewardRate.getD 0
def periodEnd (s : State) : ℕ := s.periodEnd.getD 0
def lastUpdateLedger (s : State) : ℕ := s.lastUpdateLedger.getD 0

def getInstance {α : Type} (x : Option α) : Result StakingError α := okOr x .notInitialized

/-- `mul_div(..).ok_or(Overflow)` -/
def scaled (a b denominator : ℤ) : Result StakingError ℤ :=
  match mulDiv a b denominator with
  | .ok quotient => return quotient
  | .error _ => .error (.error .overflow)

/-- The ledgers of the emission window since the accumulator was last advanced. -/
def elapsedLedgers (now : ℕ) (s : State) : ℕ :=
  saturatingSubU32 (min now (periodEnd s)) (min (lastUpdateLedger s) (periodEnd s))

def projectedRewardPerToken (now : ℕ) (totalStaked : ℤ) (s : State) : Result StakingError ℤ :=
  if elapsedLedgers now s = 0 ∨ rewardRate s ≤ 0 ∨ totalStaked ≤ 0 then return rewardPerToken s
  else do
    let numerator ← okOr (checkedMul (elapsedLedgers now s) (rewardRate s)) .overflow
    let delta ← scaled numerator rewardScale totalStaked
    okOr (checkedAdd (rewardPerToken s) delta) .overflow

def accrue (now : ℕ) (totalStaked : ℤ) (s : State) : Result StakingError State := do
  let projected ← projectedRewardPerToken now totalStaked s
  return { s with rewardPerTokenStored := some projected, lastUpdateLedger := some now }

def calculateEarned (stake rpt paid accrued : ℤ) : Option ℤ := do
  let delta ← checkedSub rpt paid
  let earned ← (mulDiv stake delta rewardScale).toOption
  checkedAdd accrued earned

def earnedAtRewardPerToken (s : State) (staker : Address) (rpt : ℤ) : ℤ :=
  (calculateEarned (entry s.stakes staker) rpt (entry s.rewardPerTokenPaid staker)
    (entry s.rewards staker)).getD 0

def earned (s : State) (staker : Address) : ℤ := earnedAtRewardPerToken s staker (rewardPerToken s)

def updateReward (staker : Address) (s : State) : State :=
  { s with
    rewards := s.rewards.insert staker (earned s staker)
    rewardPerTokenPaid := s.rewardPerTokenPaid.insert staker (rewardPerToken s) }

/-- A view: nothing is written. -/
def pendingRewards (now : ℕ) (s : State) (staker : Address) : ℤ :=
  match projectedRewardPerToken now (s.totalStaked.getD 0) s with
  | .ok projected => earnedAtRewardPerToken s staker projected
  | .error _ => earnedAtRewardPerToken s staker (rewardPerToken s)

section Entrypoints
variable (house : Address) (env : Env)

def callTransfer (x : Transfer Purpose) (s : State) : Result StakingError State :=
  recordTransfer env.tokens s.transfers x fun log => { s with transfers := log }

def initializeStaking (admin stakeToken rewardToken : Address) (unbondingPeriod : ℕ)
    (slashDestination : Address) (s : State) : Result StakingError State := do
  rejectIf s.admin.isSome .alreadyInitialized
  requireAuth env.toContext admin
  return { s with
    admin := some admin, stakeToken := some stakeToken, rewardToken := some rewardToken,
    totalStaked := some 0, unbondingPeriod := some unbondingPeriod,
    slashDestination := some slashDestination, rewardPerTokenStored := some 0,
    rewardRate := some 0, periodEnd := some 0, lastUpdateLedger := some env.sequence }

def setRewardRate (rewardRate : ℤ) (periodEnd : ℕ) (s : State) : Result StakingError State := do
  let admin ← getInstance s.admin
  requireAuth env.toContext admin
  rejectIf (rewardRate < 0) .invalidRewardRate
  rejectIf (periodEnd ≤ env.sequence) .invalidPeriodEnd
  let totalStaked ← getInstance s.totalStaked
  let s ← accrue env.sequence totalStaked s
  return { s with rewardRate := some rewardRate, periodEnd := some periodEnd }

def stake (staker : Address) (amount : ℤ) (s : State) : Result StakingError State := do
  requireAuth env.toContext staker
  let totalStaked ← getInstance s.totalStaked
  let s ← accrue env.sequence totalStaked s
  let s := updateReward staker s
  let stakeToken ← getInstance s.stakeToken
  let s ← callTransfer env ⟨.stake, stakeToken, staker, house, amount⟩ s
  let newStake ← unwrap (checkedAdd (entry s.stakes staker) amount)
  let newTotal ← unwrap (checkedAdd totalStaked amount)
  return { s with stakes := s.stakes.insert staker newStake, totalStaked := some newTotal }

/-- `if reward > 0 { .. }` of `claim_rewards` -/
def payReward (staker : Address) (s : State) : Result StakingError State :=
  let reward := entry s.rewards staker
  if 0 < reward then do
    let rewardToken ← getInstance s.rewardToken
    let s ← callTransfer env ⟨.reward, rewardToken, house, staker, reward⟩ s
    return { s with rewards := s.rewards.insert staker 0 }
  else return s

def claimRewards (staker : Address) (s : State) : Result StakingError State := do
  requireAuth env.toContext staker
  let totalStaked ← getInstance s.totalStaked
  let s ← accrue env.sequence totalStaked s
  payReward house env staker (updateReward staker s)

/-- Taking from a stake checks that the stake is large enough, and nothing else. -/
def takeStake (staker : Address) (amount totalStaked : ℤ) (s : State) :
    Result StakingError State := do
  let prev := entry s.stakes staker
  rejectIf (prev < amount) .insufficientStake
  let newStake ← unwrap (checkedSub prev amount)
  let newTotal ← unwrap (checkedSub totalStaked amount)
  return { s with stakes := s.stakes.insert staker newStake, totalStaked := some newTotal }

/-- Without an unbonding period the stake is paid at once. -/
def payOrQueue (staker : Address) (amount : ℤ) (s : State) : Result StakingError State :=
  let unbondingPeriod := s.unbondingPeriod.getD 0
  if unbondingPeriod = 0 then do
    let stakeToken ← getInstance s.stakeToken
    callTransfer env ⟨.unstake, stakeToken, house, staker, amount⟩ s
  else do
    let readyAt ← unwrap (checkedAddU32 env.sequence unbondingPeriod)
    -- an earlier request of the staker is overwritten
    return { s with unbondRequests := s.unbondRequests.insert staker ⟨amount, readyAt⟩ }

def unstake (staker : Address) (amount : ℤ) (s : State) : Result StakingError State := do
  requireAuth env.toContext staker
  let totalStaked ← getInstance s.totalStaked
  let s ← accrue env.sequence totalStaked s
  let s ← takeStake staker amount totalStaked (updateReward staker s)
  payOrQueue house env staker amount s

def withdraw (staker : Address) (s : State) : Result StakingError State := do
  requireAuth env.toContext staker
  let req ← okOr (s.unbondRequests.lookup staker) .noUnbondRequest
  rejectIf (env.sequence < req.readyAt) .unbondingNotComplete
  let stakeToken ← getInstance s.stakeToken
  let s ← callTransfer env ⟨.withdrawal, stakeToken, house, staker, req.amount⟩ s
  return { s with unbondRequests := s.unbondRequests.erase staker }

def slash (staker : Address) (amount : ℤ) (s : State) : Result StakingError State := do
  let admin ← getInstance s.admin
  requireAuth env.toContext admin
  let totalStaked ← getInstance s.totalStaked
  let s ← accrue env.sequence totalStaked s
  let s ← takeStake staker amount totalStaked (updateReward staker s)
  let dest ← getInstance s.slashDestination
  let stakeToken ← getInstance s.stakeToken
  callTransfer env ⟨.slash, stakeToken, house, dest, amount⟩ s

end Entrypoints

inductive Call where
  | initializeStaking (admin stakeToken rewardToken : Address) (unbondingPeriod : ℕ)
      (slashDestination : Address)
  | setRewardRate (rewardRate : ℤ) (periodEnd : ℕ)
  | stake (staker : Address) (amount : ℤ)
  | claimRewards (staker : Address)
  | unstake (staker : Address) (amount : ℤ)
  | withdraw (staker : Address)
  | slash (staker : Address) (amount : ℤ)

/-- A call on the contract at `house`, which signs nothing itself. -/
structure Invocation (house : Address) extends Env where
  call : Call
  outside : house ∉ auths

def exec {house : Address} (i : Invocation house) (s : State) : Result StakingError State :=
  let env := i.toEnv
  match i.call with
  | .initializeStaking admin stakeToken rewardToken unbondingPeriod slashDestination =>
    initializeStaking env admin stakeToken rewardToken unbondingPeriod slashDestination s
  | .setRewardRate rewardRate periodEnd => setRewardRate env rewardRate periodEnd s
  | .stake staker amount => stake house env staker amount s
  | .claimRewards staker => claimRewards house env staker s
  | .unstake staker amount => unstake house env staker amount s
  | .withdraw staker => withdraw house env staker s
  | .slash staker amount => slash house env staker amount s

def run {house : Address} (s : State) (is : List (Invocation house)) : State := HostRuns.run exec s is

end SorobanKit.Staking
