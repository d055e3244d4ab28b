import Mathlib.Data.Int.Sqrt
import SorobanKit.HostBalances
import SorobanKit.HostInteger
import SorobanKit.HostInvocation
import SorobanKit.HostRuns
import SorobanKit.HostTransfers

set_option autoImplicit false

/-!
# The DAO

Proposals with a bond, token-weighted votes that lock the tokens of the voter, delegation, the
queue with its timelock, and the four ways to cancel. `transfers` is the log of the token
transfers that returned and `dispatched` the log of the action payloads. Events, TTL bumps and
queries are left out.
-/
namespace SorobanKit.Dao
open HostBalances HostInteger HostInvocation HostTransfers

inductive DaoError where
  | notAuthorized
  | alreadyInitialized
  | notInitialized
  | proposalNotFound
  | invalidState
  | deadlineNotReached
  | alreadyVoted
  | quorumNotMet
  | proposalRejected
  | insufficientVotingPower
  | insufficientBondBalance
  | actionFailed
  | votesAlreadyCast
  | invalidQuorumBps
  | votingClosed
  | timelockNotExpired
  | circularDelegation
  | noLockedTokens
  | votingStillOpen
  | duplicateProposal
  | invalidChoice
  | noChoices
  | invalidVotingType
  | missingSecurityCouncil
  | unauthorizedCouncil
  | notProposer
  | votingAlreadyStarted
  deriving DecidableEq, Repr

abbrev Symbol := String
abbrev Val := ℕ

/-- A SHA-256 hash. -/
abbrev Hash := ℕ

inductive VotingType where
  | linear
  | quadratic
  deriving DecidableEq, Repr

inductive ProposalTier where
  | standard
  | financial
  | critical
  deriving DecidableEq, Repr

inductive ProposalState where
  | active
  | queued
  | executed
  | cancelled
  deriving DecidableEq, Repr

structure Proposal where
  id : ℕ
  proposer : Address
  title : String
  description : String
  votingStart : ℕ
  deadline : ℕ
  yesVotes : ℤ
  noVotes : ℤ
  state : ProposalState
  actionTarget : Option Address
  actionFunction : Option Symbol
  actionArgs : Option (List Val)
  bondAmount : ℤ
  totalSupplyAtCreation : ℤ
  executionEta : ℕ
  votingType : VotingType
  tier : ProposalTier
  choices : List Symbol
  payloadHash : Hash
  deriving DecidableEq, Repr

/-- Why the contract moves tokens, each time for one proposal. -/
inductive Purpose where
  | bond (proposalId : ℕ)
  | bondRefund (proposalId : ℕ)
  | bondSlash (proposalId : ℕ)
  | lock (proposalId : ℕ)
  | unlock (proposalId : ℕ)
  deriving DecidableEq, Repr

structure Dispatch where
  proposalId : ℕ
  target : Address
  function : Symbol
  args : List Val
  deriving DecidableEq, Repr

structure State where
  admin : Option Address := none
  token : Option Address := none
  votingPeriod : Option ℕ := none
  quorum : Option ℤ := none
  proposalBond : Option ℤ := none
  minQuorumBps : Option ℕ := none
  maxQuorumBps : Option ℕ := none
  quorumEmaWindow : Option ℕ := none
  quorumEmaBps : Option ℕ := none
  quorumEmaCount : Option ℕ := none
  quorumBps : Option ℕ := none
  executionDelay : Option ℕ := none
  standardDelay : Option ℕ := none
  financialDelay : Option ℕ := none
  criticalDelay : Option ℕ := none
  proposalCount : Option ℕ := none
  initialized : Bool := false
  securityCouncil : Option Address := none
  proposals : Finmap (fun _ : ℕ => Proposal) := ∅
  activePayloadHash : Finmap (fun _ : Hash => ℕ) := ∅
  votes : Balances (ℕ × Address) := ∅
  lockedTokens : Balances (ℕ × Address) := ∅
  delegates : Finmap (fun _ : Address => Address) := ∅
  choiceTally : Balances (ℕ × Symbol) := ∅
  transfers : List (Transfer Purpose) := []
  dispatched : List Dispatch := []

def State.empty : State := {}

/-- The contract at an address, with the two helpers that its source calls and does not define. -/
structure Deployment where
  house : Address
  applyVotingType : VotingType → ℤ → ℤ
  computePayloadHash : String → String → Option Address → Option Symbol → Option (List Val) → Hash

/-- One invocation sees the ledger, its authorizations and what token contracts and the targets of
    action payloads answer. -/
structure Env extends Context where
  tokens : TokenReplies Purpose
  totalSupply : Address → ℤ
  invokes : Address → Symbol → List Val → Bool

def getInstance {α : Type} (x : Option α) : Result DaoError α := okOr x .notInitialized

def defaultQuorumEmaWindow : ℕ := 10
def bpsDenominator : ℕ := 10000
def defaultStandardDelay : ℕ := 17280
def defaultFinancialDelay : ℕ := 51840
def defaultCriticalDelay : ℕ := 120960

def requireInitialized (s : State) : Result DaoError Unit :=
  rejectIf (s.initialized = false) .notInitialized

def getProposal (proposalId : ℕ) (s : State) : Result DaoError Proposal :=
  okOr (s.proposals.lookup proposalId) .proposalNotFound

def State.setProposal (s : State) (proposalId : ℕ) (proposal : Proposal) : State :=
  { s with proposals := s.proposals.insert proposalId proposal }

/-- What an invocation wrote before it returns an error is not kept. -/
def failWith (code : DaoError) (_ : State) : Result DaoError State := .error (.error code)

section Entrypoints
variable (dao : Deployment) (env : Env)

def callTransfer (x : Transfer Purpose) (s : State) : Result DaoError State :=
  recordTransfer env.tokens s.transfers x fun log => { s with transfers := log }

def initializeDao (admin token : Address) (votingPeriod : ℕ) (quorum proposalBond : ℤ)
    (minQuorumBps maxQuorumBps quorumBps executionDelay : ℕ) (s : State) :
    Result DaoError State := do
  rejectIf (s.initialized = true) .alreadyInitialized
  rejectIf (10000 < quorumBps) .invalidQuorumBps
  requireAuth env.toContext admin
  let band ← unwrap (checkedAddU32 minQuorumBps maxQuorumBps)
  return { s with
    admin := some admin, token := some token, votingPeriod := some votingPeriod,
    quorum := some quorum, proposalBond := some proposalBond, minQuorumBps := some minQuorumBps,
    maxQuorumBps := some maxQuorumBps, quorumEmaWindow := some defaultQuorumEmaWindow,
    quorumEmaBps := some (band / 2), quorumEmaCount := some 0, quorumBps := some quorumBps,
    executionDelay := some executionDelay, standardDelay := some executionDelay,
    financialDelay := some defaultFinancialDelay, criticalDelay := some defaultCriticalDelay,
    proposalCount := some 0, initialized := true }

/-- The bond of a new proposal moves from the proposer to the contract. -/
def escrowBond (proposer token : Address) (balance : ℤ) (proposalId : ℕ) (s : State) :
    Result DaoError State :=
  let proposalBond := s.proposalBond.getD 0
  if 0 < proposalBond then do
    rejectIf (balance < proposalBond) .insufficientBondBalance
    callTransfer env ⟨.bond proposalId, token, proposer, dao.house, proposalBond⟩ s
  else return s

def createProposalWithConfig (proposer : Address) (title description : String)
    (actionTarget : Option Address) (actionFunction : Option Symbol) (actionArgs : Option (List Val))
    (votingType : VotingType) (tier : ProposalTier) (choices : List Symbol) (s : State) :
    Result DaoError State := do
  requireInitialized s
  requireAuth env.toContext proposer
  let token ← getInstance s.token
  let balance := env.tokens.balance token proposer
  rejectIf (balance ≤ 0) .insufficientVotingPower
  let payloadHash := dao.computePayloadHash title description actionTarget actionFunction actionArgs
  rejectIf (payloadHash ∈ s.activePayloadHash) .duplicateProposal
  let proposalId := s.proposalCount.getD 0
  let s ← escrowBond dao env proposer token balance proposalId s
  let votingPeriod ← getInstance s.votingPeriod
  let deadline ← unwrap (checkedAddU32 env.sequence votingPeriod)
  let count ← unwrap (checkedAddU32 proposalId 1)
  let proposal : Proposal :=
    { id := proposalId, proposer := proposer, title := title, description := description,
      votingStart := env.sequence, deadline := deadline, yesVotes := 0, noVotes := 0,
      state := .active, actionTarget := actionTarget, actionFunction := actionFunction,
      actionArgs := actionArgs, bondAmount := s.proposalBond.getD 0,
      totalSupplyAtCreation := env.totalSupply token, executionEta := 0, votingType := votingType,
      tier := tier, choices := choices, payloadHash := payloadHash }
  return { s.setProposal proposalId proposal with
    proposalCount := some count,
    activePayloadHash := s.activePayloadHash.insert payloadHash proposalId }

def createProposal (proposer : Address) (title description : String) (actionTarget : Option Address)
    (actionFunction : Option Symbol) (actionArgs : Option (List Val)) (s : State) :
    Result DaoError State :=
  createProposalWithConfig dao env proposer title description actionTarget actionFunction actionArgs
    .linear .standard [] s

/-- A proposal that takes votes at this ledger. -/
def getOpenProposal (proposalId : ℕ) (s : State) : Result DaoError Proposal := do
  let proposal ← getProposal proposalId s
  rejectIf (proposal.state ≠ .active) .invalidState
  rejectIf (proposal.deadline < env.sequence) .votingClosed
  return proposal

/-- The whole balance of the voter moves to the contract, and `LockedTokens` is set to it,
    whatever it held before. -/
def lockBalance (voter : Address) (proposalId : ℕ) (s : State) : Result DaoError (ℤ × State) := do
  let token ← getInstance s.token
  let ownBalance := env.tokens.balance token voter
  rejectIf (ownBalance ≤ 0) .insufficientVotingPower
  let s ← callTransfer env ⟨.lock proposalId, token, voter, dao.house, ownBalance⟩ s
  return (ownBalance,
    { s with lockedTokens := s.lockedTokens.insert (proposalId, voter) ownBalance })

def Proposal.cap (proposal : Proposal) (amount : ℤ) : ℤ :=
  if proposal.totalSupplyAtCreation < amount then proposal.totalSupplyAtCreation else amount

def Proposal.addVotes (proposal : Proposal) (support : Bool) (weight : ℤ) :
    Result DaoError Proposal :=
  if support then do
    let yesVotes ← okOr (checkedAdd proposal.yesVotes weight) .notInitialized
    return { proposal with yesVotes := yesVotes }
  else do
    let noVotes ← okOr (checkedAdd proposal.noVotes weight) .notInitialized
    return { proposal with noVotes := noVotes }

def castVote (voter : Address) (proposalId : ℕ) (proposal : Proposal) (support : Bool) (weight : ℤ)
    (s : State) : Result DaoError State := do
  let proposal ← proposal.addVotes support weight
  return { s.setProposal proposalId proposal with
    votes := s.votes.insert (proposalId, voter) weight }

def vote (voter : Address) (proposalId : ℕ) (support : Bool) (s : State) :
    Result DaoError State := do
  requireInitialized s
  requireAuth env.toContext voter
  let proposal ← getOpenProposal env proposalId s
  rejectIf ((proposalId, voter) ∈ s.votes) .alreadyVoted
  let (ownBalance, s) ← lockBalance dao env voter proposalId s
  let weight := dao.applyVotingType proposal.votingType (proposal.cap ownBalance)
  castVote voter proposalId proposal support weight s

def voteChoice (voter : Address) (proposalId : ℕ) (choice : Symbol) (amount : ℤ) (s : State) :
    Result DaoError State := do
  requireInitialized s
  requireAuth env.toContext voter
  let proposal ← getOpenProposal env proposalId s
  rejectIf (choice ∉ proposal.choices) .invalidChoice
  rejectIf ((proposalId, voter) ∈ s.votes) .alreadyVoted
  let (ownBalance, s) ← lockBalance dao env voter proposalId s
  let base := if 0 < amount ∧ amount ≤ ownBalance then amount else ownBalance
  let weight := dao.applyVotingType proposal.votingType (proposal.cap base)
  let tally ← okOr (checkedAdd (entry s.choiceTally (proposalId, choice)) weight) .notInitialized
  castVote voter proposalId proposal true weight
    { s with choiceTally := s.choiceTally.insert (proposalId, choice) tally }

/-- One round of the loop of `vote_with_delegators`, which reads the lock of the delegator and
    leaves it as it is. -/
def addDelegated (voter : Address) (proposalId : ℕ) (s : State) (totalWeight : ℤ)
    (delegator : Address) : Result DaoError ℤ := do
  let delegatee ← okOr (s.delegates.lookup delegator) .notAuthorized
  rejectIf (delegatee ≠ voter) .notAuthorized
  let delegatedAmount ← okOr (s.lockedTokens.lookup (proposalId, delegator)) .noLockedTokens
  okOr (checkedAdd totalWeight delegatedAmount) .notInitialized

/-- `apply_voting_type` is not called here. -/
def voteWithDelegators (voter : Address) (proposalId : ℕ) (support : Bool)
    (delegators : List Address) (s : State) : Result DaoError State := do
  requireInitialized s
  requireAuth env.toContext voter
  let proposal ← getOpenProposal env proposalId s
  rejectIf ((proposalId, voter) ∈ s.votes) .alreadyVoted
  let (ownBalance, s) ← lockBalance dao env voter proposalId s
  let totalWeight ← delegators.foldlM (addDelegated voter proposalId s) ownBalance
  castVote voter proposalId proposal support (proposal.cap totalWeight) s

def lockForVote (delegator : Address) (proposalId : ℕ) (s : State) : Result DaoError State := do
  requireInitialized s
  requireAuth env.toContext delegator
  let _ ← getOpenProposal env proposalId s
  let (_, s) ← lockBalance dao env delegator proposalId s
  return s

def unlockTokens (voter : Address) (proposalId : ℕ) (s : State) : Result DaoError State := do
  requireInitialized s
  let proposal ← getProposal proposalId s
  rejectIf (env.sequence ≤ proposal.deadline) .votingStillOpen
  let lockedAmount ← okOr (s.lockedTokens.lookup (proposalId, voter)) .noLockedTokens
  let token ← getInstance s.token
  let s ← callTransfer env ⟨.unlock proposalId, token, dao.house, voter, lockedAmount⟩ s
  return { s with lockedTokens := s.lockedTokens.erase (proposalId, voter) }

/-- Whether following the delegations from `current` meets `delegator` after it. -/
def reachesDelegator (delegator : Address) (s : State) : ℕ → Address → Bool
  | 0, _ => false
  | hops + 1, current =>
    match s.delegates.lookup current with
    | none => false
    | some next => next = delegator || reachesDelegator delegator s hops next

def maxHops : ℕ := 20

def delegate (delegator delegatee : Address) (s : State) : Result DaoError State := do
  requireInitialized s
  requireAuth env.toContext delegator
  rejectIf (reachesDelegator delegator s maxHops delegatee = true) .circularDelegation
  return { s with delegates := s.delegates.insert delegator delegatee }

def undelegate (delegator : Address) (s : State) : Result DaoError State := do
  requireInitialized s
  requireAuth env.toContext delegator
  return { s with delegates := s.delegates.erase delegator }

def slashBond (proposal : Proposal) (s : State) : Result DaoError State :=
  match s.token, s.admin with
  | some token, some admin =>
    callTransfer env ⟨.bondSlash proposal.id, token, dao.house, admin, proposal.bondAmount⟩ s
  | _, _ => return s

def slashIfBonded (proposal : Proposal) (s : State) : Result DaoError State :=
  if 0 < proposal.bondAmount then slashBond dao env proposal s else return s

def refundIfBonded (proposalId : ℕ) (proposal : Proposal) (s : State) : Result DaoError State :=
  if 0 < proposal.bondAmount then do
    let token ← getInstance s.token
    callTransfer env
      ⟨.bondRefund proposalId, token, dao.house, proposal.proposer, proposal.bondAmount⟩ s
  else return s

/-- The share of the quorum that was reached, in basis points; the last cast wraps. -/
def participationBps (totalVotes quorum : ℤ) : Result DaoError ℕ :=
  if quorum ≤ 0 then return bpsDenominator
  else do
    let scaled ← unwrap (checkedMul totalVotes bpsDenominator)
    let ratio := scaled.tdiv quorum
    return if (bpsDenominator : ℤ) < ratio then bpsDenominator else (ratio % 4294967296).toNat

def updateQuorumEma (sampleBps : ℕ) (s : State) : State :=
  let minBps := s.minQuorumBps.getD 0
  let maxBps := s.maxQuorumBps.getD 0
  if minBps = 0 ∧ maxBps = 0 then s
  else
    let window := s.quorumEmaWindow.getD defaultQuorumEmaWindow
    let oldEma := s.quorumEmaBps.getD minBps
    let numerator := saturatingAddU32 (saturatingMulU32 oldEma (saturatingSubU32 window 1))
      (saturatingMulU32 sampleBps 2)
    let newEma := min (max (numerator / saturatingAddU32 window 1) minBps) maxBps
    { s with
      quorumEmaBps := some newEma,
      quorumEmaCount := some (saturatingAddU32 (s.quorumEmaCount.getD 0) 1) }

/-- The participation check in basis points of the supply, when it is configured. -/
def requireParticipation (totalVotes : ℤ) (proposal : Proposal) (s : State) :
    Result DaoError Unit :=
  let quorumBps := s.quorumBps.getD 0
  if 0 < quorumBps then do
    let lhs ← okOr (checkedMul totalVotes 10000) .notInitialized
    let rhs ← okOr (checkedMul quorumBps proposal.totalSupplyAtCreation) .notInitialized
    rejectIf (lhs < rhs) .quorumNotMet
  else return ()

/-- The delay is `ExecutionDelay`, whatever the tier. -/
def queueProposal (proposalId : ℕ) (s : State) : Result DaoError State := do
  requireInitialized s
  let proposal ← getProposal proposalId s
  rejectIf (proposal.state ≠ .active) .invalidState
  rejectIf (env.sequence ≤ proposal.deadline) .deadlineNotReached
  let quorum ← getInstance s.quorum
  let totalVotes ← okOr (checkedAdd proposal.yesVotes proposal.noVotes) .notInitialized
  if totalVotes < quorum then do
    let s ← slashIfBonded dao env proposal s
    failWith .quorumNotMet (updateQuorumEma 0 s)
  else do
    requireParticipation totalVotes proposal s
    if proposal.yesVotes ≤ proposal.noVotes then do
      let s ← slashIfBonded dao env proposal s
      let sample ← participationBps totalVotes quorum
      failWith .proposalRejected (updateQuorumEma sample s)
    else do
      let executionEta ← unwrap (checkedAddU32 proposal.deadline (s.executionDelay.getD 0))
      return s.setProposal proposalId { proposal with state := .queued, executionEta := executionEta }

def dispatchAction (proposalId : ℕ) (proposal : Proposal) (s : State) : Result DaoError State :=
  match proposal.actionTarget, proposal.actionFunction, proposal.actionArgs with
  | some target, some function, some args => do
    trapUnless (env.invokes target function args)
    return { s with dispatched := s.dispatched ++ [⟨proposalId, target, function, args⟩] }
  | _, _, _ => return s

def executeProposal (proposalId : ℕ) (s : State) : Result DaoError State := do
  requireInitialized s
  let proposal ← getProposal proposalId s
  rejectIf (proposal.state ≠ .queued) .invalidState
  rejectIf (env.sequence < proposal.executionEta) .timelockNotExpired
  let proposal := { proposal with state := .executed }
  let s := s.setProposal proposalId proposal
  let s ← refundIfBonded dao env proposalId proposal s
  let s ← dispatchAction env proposalId proposal s
  let quorum := s.quorum.getD 0
  let totalVotes := (checkedAdd proposal.yesVotes proposal.noVotes).getD 0
  let sample ← participationBps totalVotes quorum
  return updateQuorumEma sample s

def emergencyExecuteProposal (council : Address) (proposalId : ℕ) (s : State) :
    Result DaoError State := do
  requireInitialized s
  let storedCouncil ← okOr s.securityCouncil .missingSecurityCouncil
  rejectIf (storedCouncil ≠ council) .unauthorizedCouncil
  requireAuth env.toContext council
  let proposal ← getProposal proposalId s
  rejectIf (proposal.state ≠ .active ∧ proposal.state ≠ .queued) .invalidState
  let proposal := { proposal with state := .executed }
  let s := s.setProposal proposalId proposal
  let s ← refundIfBonded dao env proposalId proposal s
  dispatchAction env proposalId proposal s

def setSecurityCouncil (admin council : Address) (s : State) : Result DaoError State := do
  requireInitialized s
  let storedAdmin ← getInstance s.admin
  rejectIf (storedAdmin ≠ admin) .notAuthorized
  requireAuth env.toContext admin
  return { s with securityCouncil := some council }

/-- The bond of a vetoed proposal stays where it is. -/
def vetoProposal (proposalId : ℕ) (s : State) : Result DaoError State := do
  requireInitialized s
  let admin ← getInstance s.admin
  requireAuth env.toContext admin
  let proposal ← getProposal proposalId s
  rejectIf (proposal.state ≠ .queued) .invalidState
  return s.setProposal proposalId { proposal with state := .cancelled }

def adminCancelProposal (proposalId : ℕ) (s : State) : Result DaoError State := do
  requireInitialized s
  let admin ← getInstance s.admin
  requireAuth env.toContext admin
  let proposal ← getProposal proposalId s
  rejectIf (proposal.state ≠ .active) .invalidState
  let proposal := { proposal with state := .cancelled }
  slashIfBonded dao env proposal (s.setProposal proposalId proposal)

def cancelProposal (proposer : Address) (proposalId : ℕ) (s : State) : Result DaoError State := do
  requireInitialized s
  requireAuth env.toContext proposer
  let proposal ← getProposal proposalId s
  rejectIf (proposal.proposer ≠ proposer) .notProposer
  rejectIf (proposal.state ≠ .active) .invalidState
  rejectIf (proposal.votingStart ≤ env.sequence) .votingAlreadyStarted
  let proposal := { proposal with state := .cancelled }
  refundIfBonded dao env proposalId proposal (s.setProposal proposalId proposal)

/-- The bond stays where it is. -/
def proposerCancelProposal (proposer : Address) (proposalId : ℕ) (s : State) :
    Result DaoError State := do
  requireInitialized s
  requireAuth env.toContext proposer
  let proposal ← getProposal proposalId s
  rejectIf (proposal.proposer ≠ proposer) .notAuthorized
  rejectIf (proposal.state ≠ .active) .invalidState
  rejectIf (0 < proposal.yesVotes ∨ 0 < proposal.noVotes) .votesAlreadyCast
  return s.setProposal proposalId { proposal with state := .cancelled }

end Entrypoints

inductive Call where
  | initializeDao (admin token : Address) (votingPeriod : ℕ) (quorum proposalBond : ℤ)
      (minQuorumBps maxQuorumBps quorumBps executionDelay : ℕ)
  | createProposal (proposer : Address) (title description : String) (actionTarget : Option Address)
      (actionFunction : Option Symbol) (actionArgs : Option (List Val))
  | createProposalWithConfig (proposer : Address) (title description : String)
      (actionTarget : Option Address) (actionFunction : Option Symbol)
      (actionArgs : Option (List Val)) (votingType : VotingType) (tier : ProposalTier)
      (choices : List Symbol)
  | vote (voter : Address) (proposalId : ℕ) (support : Bool)
  | voteChoice (voter : Address) (proposalId : ℕ) (choice : Symbol) (amount : ℤ)
  | voteWithDelegators (voter : Address) (proposalId : ℕ) (support : Bool)
      (delegators : List Address)
  | lockForVote (delegator : Address) (proposalId : ℕ)
  | unlockTokens (voter : Address) (proposalId : ℕ)
  | delegate (delegator delegatee : Address)
  | undelegate (delegator : Address)
  | queueProposal (proposalId : ℕ)
  | executeProposal (proposalId : ℕ)
  | emergencyExecuteProposal (council : Address) (proposalId : ℕ)
  | setSecurityCouncil (admin council : Address)
  | vetoProposal (proposalId : ℕ)
  | adminCancelProposal (proposalId : ℕ)
  | cancelProposal (proposer : Address) (proposalId : ℕ)
  | proposerCancelProposal (proposer : Address) (proposalId : ℕ)
  deriving DecidableEq

/-- A call on the deployed contract, which signs nothing itself. -/
structure Invocation (dao : Deployment) extends Env where
  call : Call
  outside : dao.house ∉ auths

def exec {dao : Deployment} (i : Invocation dao) (s : State) : Result DaoError State :=
  let env := i.toEnv
  match i.call with
  | .initializeDao admin token votingPeriod quorum proposalBond minQuorumBps maxQuorumBps quorumBps
      executionDelay =>
    initializeDao env admin token votingPeriod quorum proposalBond minQuorumBps maxQuorumBps
      quorumBps executionDelay s
  | .createProposal proposer title description actionTarget actionFunction actionArgs =>
    createProposal dao env proposer title description actionTarget actionFunction actionArgs s
  | .createProposalWithConfig proposer title description actionTarget actionFunction actionArgs
      votingType tier choices =>
    createProposalWithConfig dao env proposer title description actionTarget actionFunction
      actionArgs votingType tier choices s
  | .vote voter proposalId support => vote dao env voter proposalId support s
  | .voteChoice voter proposalId choice amount => voteChoice dao env voter proposalId choice amount s
  | .voteWithDelegators voter proposalId support delegators =>
    voteWithDelegators dao env voter proposalId support delegators s
  | .lockForVote delegator proposalId => lockForVote dao env delegator proposalId s
  | .unlockTokens voter proposalId => unlockTokens dao env voter proposalId s
  | .delegate delegator delegatee => delegate env delegator delegatee s
  | .undelegate delegator => undelegate env delegator s
  | .queueProposal proposalId => queueProposal dao env proposalId s
  | .executeProposal proposalId => executeProposal dao env proposalId s
  | .emergencyExecuteProposal council proposalId =>
    emergencyExecuteProposal dao env council proposalId s
  | .setSecurityCouncil admin council => setSecurityCouncil env admin council s
  | .vetoProposal proposalId => vetoProposal env proposalId s
  | .adminCancelProposal proposalId => adminCancelProposal dao env proposalId s
  | .cancelProposal proposer proposalId => cancelProposal dao env proposer proposalId s
  | .proposerCancelProposal proposer proposalId =>
    proposerCancelProposal env proposer proposalId s

def run {dao : Deployment} (s : State) (is : List (Invocation dao)) : State :=
  HostRuns.run exec s is

def demoDao : Deployment where
  house := ⟨70⟩
  applyVotingType
    | .linear, balance => balance
    | .quadratic, balance => Int.sqrt balance
  computePayloadHash _ _ _ _ _ := 7

def demoAdmin : Address := ⟨71⟩
def demoToken : Address := ⟨72⟩
def demoAlice : Address := ⟨73⟩
def demoBob : Address := ⟨74⟩
def demoCarol : Address := ⟨75⟩
def demoTarget : Address := ⟨76⟩

def demoLedger : Ledger := fun _ holder => if holder = demoDao.house then 0 else 100

def demoCall (sequence : ℕ) (call : Call) : Invocation demoDao where
  sequence := sequence
  auths := [demoAdmin, demoAlice, demoBob, demoCarol]
  tokens := honestReplies demoLedger
  totalSupply := fun _ => 1000
  invokes := fun _ _ _ => true
  call := call
  outside := by decide

/-- Voting is open for ten ledgers, and a passed proposal waits for another five. -/
def demoInitialize (bond : ℤ) : Invocation demoDao :=
  demoCall 1 (.initializeDao demoAdmin demoToken 10 50 bond 0 0 0 5)

def demoCreate (tier : ProposalTier) : Invocation demoDao :=
  demoCall 2 (.createProposalWithConfig demoCarol "a" "b" (some demoTarget) (some "f") (some [])
    .linear tier [])

/-- Bob votes, and nobody else. -/
def demoPassed (tier : ProposalTier) : List (Invocation demoDao) :=
  [demoCreate tier, demoCall 4 (.vote demoBob 0 true), demoCall 13 (.queueProposal 0)]

def demoExecuted (tier : ProposalTier) : List (Invocation demoDao) :=
  demoPassed tier ++ [demoCall 17 (.executeProposal 0)]

end SorobanKit.Dao
