import Mathlib.Data.BitVec
import SorobanKit.HostInteger
import SorobanKit.HostInvocation
import SorobanKit.HostTransfers

set_option autoImplicit false

/-!
# Storage of the two-party escrow

One field a storage key; all keys live in instance storage. `transfers` is not storage:
it is the log of the token transfers that returned, in order. Events, TTL bumps, the WASM
upgrade path, the never written arbiter-vote keys and the read-only queries are left out.
-/
namespace SorobanKit.Escrow
open HostInteger HostInvocation HostTransfers

inductive EscrowError where
  | notAuthorized
  | invalidState
  | deadlinePassed
  | deadlineNotReached
  | alreadyInitialized
  | notInitialized
  | insufficientFunds
  | invalidAmount
  | invalidParties
  | disputeTimeoutNotReached
  | noDisputeTimeout
  | milestoneNotFound
  | feeTooHigh
  | reentrancy
  | emptyTokenList
  | tokenListMismatch
  | arbiterFeeTooHigh
  | invalidThreshold
  | insufficientArbiterApprovals
  | duplicateArbiterApproval
  | invalidPartialAmount
  | mutualCancelNotAllowed
  deriving DecidableEq, Repr

inductive EscrowState where
  | created
  | funded
  | delivered
  | disputed
  | completed
  | refunded
  | cancelled
  | expiredRefunded
  deriving DecidableEq, Repr

structure Milestone where
  description : String
  amount : ℤ
  released : Bool
  deriving DecidableEq, Repr

/-- Why the contract moves tokens. -/
inductive Purpose where
  | deposit
  | release
  | fee
  | refund
  deriving DecidableEq, Repr

abbrev Hash := BitVec 256

structure State where
  admin : Option Address := none
  buyer : Option Address := none
  seller : Option Address := none
  arbiter : Option Address := none
  tokenContract : Option Address := none
  amount : Option ℤ := none
  deadline : Option ℕ := none
  state : Option EscrowState := none
  paused : Option Bool := none
  version : Option ℕ := none
  arbiters : Option (List Address) := none
  requiredSignatures : Option ℕ := none
  metadataHash : Option Hash := none
  disputeTimeoutLedgers : Option ℕ := none
  disputeRaisedAt : Option ℕ := none
  gracePeriodLedgers : Option ℕ := none
  deliveryMarkedAt : Option ℕ := none
  milestones : Option (List Milestone) := none
  feeBps : Option ℕ := none
  treasury : Option Address := none
  locked : Option Bool := none
  tokenContracts : Option (List Address) := none
  tokenAmounts : Option (List ℤ) := none
  abandonmentBuffer : Option ℕ := none
  arbiterFeeBps : Option ℕ := none
  disputeApprovals : Option (List (Address × Bool)) := none
  transfers : List (Transfer Purpose) := []

def State.empty : State := {}

/-- One invocation sees the ledger, its authorizations and the answers of token contracts. -/
structure Env extends Context where
  tokens : TokenReplies Purpose

/-- Three functions that `dispute.rs` calls in `lifecycle.rs` and that are defined nowhere. -/
structure Settlement where
  transferFunds : Env → Address → ℤ → State → Result EscrowError State
  releaseToSellerAmount : Env → ℤ → State → Result EscrowError State
  refundToBuyerAmount : Env → ℤ → State → Result EscrowError State

structure Deployment where
  contractAddress : Address
  pausable : Bool
  settlement : Settlement

def getRequired {α : Type} (x : Option α) : Result EscrowError α := okOr x .notInitialized

def requireState (expected : EscrowState) (s : State) : Result EscrowError Unit := do
  let state ← okOr s.state .notInitialized
  rejectIf (state ≠ expected) .invalidState

def acquireLock (s : State) : Result EscrowError State := do
  rejectIf (s.locked.getD false) .reentrancy
  return { s with locked := some true }

def releaseLock (s : State) : State := { s with locked := some false }

def requireNotPaused (d : Deployment) (s : State) : Result EscrowError Unit :=
  rejectIf (d.pausable ∧ s.paused.getD false) .notAuthorized

/-- A transfer call on a token contract: it returns or it takes the invocation down. -/
def callTransfer (env : Env) (x : Transfer Purpose) (s : State) : Result EscrowError State :=
  recordTransfer env.tokens s.transfers x fun log => { s with transfers := log }

/-- `admin::transfer_token` from the contract's own address. -/
def transferToken (d : Deployment) (env : Env) (purpose : Purpose) (target : Address) (amount : ℤ)
    (s : State) : Result EscrowError State := do
  let token ← unwrap s.tokenContract
  callTransfer env ⟨purpose, token, d.contractAddress, target, amount⟩ s

/-- The basket of a multi-token escrow. Initialization makes both lists equally long. -/
def basket (s : State) : Option (List (Address × ℤ)) :=
  match s.tokenContracts, s.tokenAmounts with
  | some contracts, some amounts => some (contracts.zip amounts)
  | _, _ => none

end SorobanKit.Escrow
