import SorobanKit.HostBalances
import SorobanKit.HostInteger
import SorobanKit.HostInvocation
import SorobanKit.HostRuns
import SorobanKit.HostTransfers

set_option autoImplicit false

/-!
# The crowdfunding campaign

Pledges with reward tiers, withdrawals, refunds, the creator's claim and the cancellation of
a campaign in one token. `transfers` is the log of the token transfers that returned. Events,
TTL bumps and queries are left out. Milestones and pledges in other tokens have their own
records, kept next to this state.
-/
namespace SorobanKit.Crowdfund
open HostBalances HostInteger HostInvocation HostTransfers

inductive CrowdfundError where
  | alreadyInitialized
  | notInitialized
  | deadlinePassed
  | deadlineNotReached
  | goalAlreadyMet
  | goalNotMet
  | alreadyClaimed
  | nothingToWithdraw
  | invalidAmount
  | invalidDeadline
  | invalidGoal
  | invalidTier
  | pledgeCapExceeded
  | deadlineAlreadyExtended
  | campaignCancelled
  | tierCapacityExceeded
  | invalidTierId
  | overflow
  | milestoneNotFound
  | milestoneAlreadyReleased
  | tokenNotWhitelisted
  deriving DecidableEq, Repr

structure FundingTier where
  threshold : ℤ
  description : String
  maxBackers : Option ℕ
  deriving DecidableEq, Repr

/-- Why the contract moves tokens. -/
inductive Purpose where
  | pledge
  | withdrawal
  | refund
  | claim
  | tokenPledge
  | milestone
  deriving DecidableEq, Repr

structure State where
  creator : Option Address := none
  token : Option Address := none
  goal : Option ℤ := none
  deadline : Option ℕ := none
  totalPledged : Option ℤ := none
  claimed : Option Bool := none
  cancelled : Option Bool := none
  tiers : Option (List FundingTier) := none
  deadlineExtended : Option Bool := none
  maxPledgePerAddress : Option ℤ := none
  claimWindow : Option ℕ := none
  pledges : Balances Address := ∅
  pledgeTier : Finmap (fun _ : Address => Option ℕ) := ∅
  tierBackerCount : Finmap (fun _ : ℕ => ℕ) := ∅
  transfers : List (Transfer Purpose) := []

def State.empty : State := {}

/-- One invocation sees the ledger, its authorizations and what token contracts answer. -/
structure Env extends Context where
  tokens : TokenReplies Purpose

def getInstance {α : Type} (x : Option α) : Result CrowdfundError α := okOr x .notInitialized

/-- Ninety days of ledgers. -/
def defaultClaimWindow : ℕ := 90 * 24 * 60 * 60 / 5

section Entrypoints
variable (house : Address) (env : Env)

def callTransfer (x : Transfer Purpose) (s : State) : Result CrowdfundError State :=
  recordTransfer env.tokens s.transfers x fun log => { s with transfers := log }

def initializeCampaign (creator token : Address) (goal : ℤ) (deadline : ℕ)
    (tiers : List FundingTier) (maxPledgePerAddress : Option ℤ) (claimWindow : Option ℕ)
    (s : State) : Result CrowdfundError State := do
  rejectIf s.creator.isSome .alreadyInitialized
  rejectIf (goal ≤ 0) .invalidGoal
  rejectIf (deadline ≤ env.sequence) .invalidDeadline
  tiers.forM fun tier => rejectIf (tier.threshold ≤ 0) .invalidTier
  rejectIf (∃ cap ∈ maxPledgePerAddress, cap ≤ 0) .invalidAmount
  requireAuth env.toContext creator
  return { s with
    creator := some creator, token := some token, goal := some goal, deadline := some deadline,
    totalPledged := some 0, claimed := some false, cancelled := some false, tiers := some tiers,
    deadlineExtended := some false,
    maxPledgePerAddress := maxPledgePerAddress.or s.maxPledgePerAddress,
    claimWindow := some (claimWindow.getD defaultClaimWindow) }

/-- A tier with a limit counts a backer once. -/
def countBacker (pledger : Address) (tid : ℕ) (tier : FundingTier) (s : State) :
    Result CrowdfundError State :=
  match tier.maxBackers with
  | none => return s
  | some maxBackers => do
    let currentCount := (s.tierBackerCount.lookup tid).getD 0
    let alreadyClaimed := (s.pledgeTier.lookup pledger).getD none
    rejectIf (alreadyClaimed ≠ some tid ∧ maxBackers ≤ currentCount) .tierCapacityExceeded
    if alreadyClaimed = some tid then return s
    else do
      let count ← unwrap (checkedAddU32 currentCount 1)
      return { s with tierBackerCount := s.tierBackerCount.insert tid count }

def selectTier (pledger : Address) (tierId : Option ℕ) (s : State) : Result CrowdfundError State :=
  match tierId with
  | none => return s
  | some tid => do
    let tiers ← getInstance s.tiers
    let tier ← okOr tiers[tid]? .invalidTierId
    let s ← countBacker pledger tid tier s
    return { s with pledgeTier := s.pledgeTier.insert pledger (some tid) }

def pledge (pledger : Address) (amount : ℤ) (tierId : Option ℕ) (s : State) :
    Result CrowdfundError State := do
  rejectIf (amount ≤ 0) .invalidAmount
  let deadline ← getInstance s.deadline
  rejectIf (deadline < env.sequence) .deadlinePassed
  let cancelled ← getInstance s.cancelled
  rejectIf cancelled .campaignCancelled
  requireAuth env.toContext pledger
  let newPledge ← okOr (checkedAdd (entry s.pledges pledger) amount) .overflow
  rejectIf (∃ cap ∈ s.maxPledgePerAddress, cap < newPledge) .pledgeCapExceeded
  let s ← selectTier pledger tierId s
  let token ← getInstance s.token
  let s := { s with pledges := s.pledges.insert pledger newPledge }
  let total ← getInstance s.totalPledged
  let newTotal ← okOr (checkedAdd total amount) .overflow
  callTransfer env ⟨.pledge, token, pledger, house, amount⟩ { s with totalPledged := some newTotal }

def withdraw (pledger : Address) (s : State) : Result CrowdfundError State := do
  let _ ← getInstance s.creator
  let deadline ← getInstance s.deadline
  rejectIf (deadline < env.sequence) .deadlinePassed
  let goal ← getInstance s.goal
  let total ← getInstance s.totalPledged
  rejectIf (goal ≤ total) .goalAlreadyMet
  requireAuth env.toContext pledger
  let pledge := entry s.pledges pledger
  rejectIf (pledge ≤ 0) .nothingToWithdraw
  let s := { s with pledges := s.pledges.erase pledger }
  let newTotal ← unwrap (checkedSub total pledge)
  let s := { s with totalPledged := some newTotal }
  let token ← getInstance s.token
  callTransfer env ⟨.withdrawal, token, house, pledger, pledge⟩ s

/-- A goal that was met can be refunded only when the claim window has passed unclaimed. -/
def requireClaimExpired (cancelled claimed : Bool) (deadline : ℕ) (goal total : ℤ) (s : State) :
    Result CrowdfundError Unit :=
  if ¬ cancelled ∧ goal ≤ total then do
    rejectIf claimed .goalAlreadyMet
    let claimWindow := s.claimWindow.getD defaultClaimWindow
    rejectIf (env.sequence ≤ saturatingAddU32 deadline claimWindow) .goalAlreadyMet
  else return ()

/-- `TotalPledged` stays as it is. -/
def refund (pledger : Address) (s : State) : Result CrowdfundError State := do
  let _ ← getInstance s.creator
  let cancelled ← getInstance s.cancelled
  let deadline ← getInstance s.deadline
  rejectIf (¬ cancelled ∧ env.sequence ≤ deadline) .deadlineNotReached
  let goal ← getInstance s.goal
  let total ← getInstance s.totalPledged
  let claimed ← getInstance s.claimed
  requireClaimExpired env cancelled claimed deadline goal total s
  requireAuth env.toContext pledger
  let pledge := entry s.pledges pledger
  rejectIf (pledge ≤ 0) .nothingToWithdraw
  let s := { s with pledges := s.pledges.erase pledger }
  let token ← getInstance s.token
  callTransfer env ⟨.refund, token, house, pledger, pledge⟩ s

/-- One round of the loop of `refund_batch`. -/
def refundOne (token : Address) (s : State) (pledger : Address) : Result CrowdfundError State :=
  let pledge := entry s.pledges pledger
  if 0 < pledge then
    callTransfer env ⟨.refund, token, house, pledger, pledge⟩
      { s with pledges := s.pledges.erase pledger }
  else return s

def refundBatch (pledgers : List Address) (s : State) : Result CrowdfundError State := do
  let _ ← getInstance s.creator
  let cancelled ← getInstance s.cancelled
  let deadline ← getInstance s.deadline
  rejectIf (¬ cancelled ∧ env.sequence ≤ deadline) .deadlineNotReached
  let goal ← getInstance s.goal
  let total ← getInstance s.totalPledged
  rejectIf (¬ cancelled ∧ goal ≤ total) .goalAlreadyMet
  let token ← getInstance s.token
  pledgers.foldlM (refundOne house env token) s

def extendDeadline (newDeadline : ℕ) (s : State) : Result CrowdfundError State := do
  let creator ← getInstance s.creator
  requireAuth env.toContext creator
  let deadline ← getInstance s.deadline
  rejectIf (deadline < env.sequence) .deadlinePassed
  let extended ← getInstance s.deadlineExtended
  rejectIf extended .deadlineAlreadyExtended
  rejectIf (newDeadline ≤ deadline) .invalidDeadline
  return { s with deadline := some newDeadline, deadlineExtended := some true }

/-- `Cancelled` is not looked at. -/
def claim (s : State) : Result CrowdfundError State := do
  let creator ← getInstance s.creator
  requireAuth env.toContext creator
  let deadline ← getInstance s.deadline
  rejectIf (env.sequence ≤ deadline) .deadlineNotReached
  let claimed ← getInstance s.claimed
  rejectIf claimed .alreadyClaimed
  let goal ← getInstance s.goal
  let total ← getInstance s.totalPledged
  rejectIf (total < goal) .goalNotMet
  let s := { s with claimed := some true }
  let token ← getInstance s.token
  callTransfer env ⟨.claim, token, house, creator, total⟩ s

def cancelCampaign (s : State) : Result CrowdfundError State := do
  let creator ← getInstance s.creator
  requireAuth env.toContext creator
  let deadline ← getInstance s.deadline
  rejectIf (deadline < env.sequence) .deadlinePassed
  let cancelled ← getInstance s.cancelled
  rejectIf cancelled .campaignCancelled
  return { s with cancelled := some true }

end Entrypoints

inductive Call where
  | initializeCampaign (creator token : Address) (goal : ℤ) (deadline : ℕ)
      (tiers : List FundingTier) (maxPledgePerAddress : Option ℤ) (claimWindow : Option ℕ)
  | pledge (pledger : Address) (amount : ℤ) (tierId : Option ℕ)
  | withdraw (pledger : Address)
  | refund (pledger : Address)
  | refundBatch (pledgers : List Address)
  | extendDeadline (newDeadline : ℕ)
  | claim
  | cancelCampaign

/-- A call on the contract at `house`, which signs nothing itself. -/
structure Invocation (house : Address) extends Env where
  call : Call
  outside : house ∉ auths

def exec {house : Address} (i : Invocation house) (s : State) : Result CrowdfundError State :=
  let env := i.toEnv
  match i.call with
  | .initializeCampaign creator token goal deadline tiers maxPledgePerAddress claimWindow =>
    initializeCampaign env creator token goal deadline tiers maxPledgePerAddress claimWindow s
  | .pledge pledger amount tierId => pledge house env pledger amount tierId s
  | .withdraw pledger => withdraw house env pledger s
  | .refund pledger => refund house env pledger s
  | .refundBatch pledgers => refundBatch house env pledgers s
  | .extendDeadline newDeadline => extendDeadline env newDeadline s
  | .claim => claim house env s
  | .cancelCampaign => cancelCampaign env s

def run {house : Address} (s : State) (is : List (Invocation house)) : State := HostRuns.run exec s is

end SorobanKit.Crowdfund
