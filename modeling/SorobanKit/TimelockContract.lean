import Mathlib.Logic.Function.Basic
import SorobanKit.HostInteger
import SorobanKit.HostInvocation
import SorobanKit.HostRuns
import SorobanKit.HostTransfers

set_option autoImplicit false

/-!
# The timelock

Tokens are locked until a ledger, in tranches with a ledger each, or in several deposits,
and released to a beneficiary; the admin may cancel. The contract keeps a single-token
record (`token`, `amount`, `releaseLedger`) beside the balances of each token and the flags
of each tranche. `transfers` is the log of the token transfers that returned. Events, TTL
bumps and the read-only queries but `claimable_amount` are left out.
-/
namespace SorobanKit.Timelock
open HostInteger HostInvocation HostTransfers

inductive TimelockError where
  | alreadyInitialized
  | notInitialized
  | notYetReleasable
  | alreadyReleased
  | alreadyCancelled
  | invalidAmount
  | invalidReleaseLedger
  | stakingNotConfigured
  | alreadyDeposited
  | notDeposited
  | trancheAlreadyReleased
  deriving DecidableEq, Repr

inductive TimelockState where
  | active
  | released
  | cancelled
  deriving DecidableEq, Repr

structure ReleaseTranche where
  releaseLedger : ℕ
  amount : ℤ
  deriving DecidableEq, Repr

/-- Why the contract moves tokens. A lock carries the ledger it is locked until; the tranches
    of a timelock are funded together. -/
inductive Purpose where
  | lock (releaseLedger : ℕ)
  | fund
  | payout
  | refund
  | stake
  | accrued
  deriving DecidableEq, Repr

structure State where
  admin : Option Address := none
  token : Option Address := none
  beneficiary : Option Address := none
  releaseLedger : Option ℕ := none
  amount : Option ℤ := none
  state : Option TimelockState := none
  tranches : Option (List ReleaseTranche) := none
  releasedTranches : Option (List Bool) := none
  stakingContract : Option Address := none
  yieldRecipient : Option Address := none
  deposited : Option Bool := none
  stakedAmount : Option ℤ := none
  trancheCount : Option ℕ := none
  tranche : ℕ → Option ReleaseTranche := fun _ => none
  trancheReleased : ℕ → Option Bool := fun _ => none
  lockedBalance : Address → Option ℤ := fun _ => none
  tokenReleaseLedger : Address → Option ℕ := fun _ => none
  tokenCount : Option ℕ := none
  tokenAt : ℕ → Option Address := fun _ => none
  transfers : List (Transfer Purpose) := []

def State.empty : State := {}

inductive StakingCall where
  | stake (staker : Address) (amount : ℤ)
  | unstake (staker : Address) (amount : ℤ)
  | withdraw (staker : Address)
  deriving DecidableEq, Repr

/-- One invocation sees the ledger, its authorizations and what token and staking contracts
    answer. -/
structure Env extends Context where
  tokens : TokenReplies Purpose
  staking : Address → StakingCall → Bool

section Entrypoints
variable (self : Address) (env : Env)

def getRequired {α : Type} (x : Option α) : Result TimelockError α := okOr x .notInitialized

def callTransfer (x : Transfer Purpose) (s : State) : Result TimelockError State :=
  recordTransfer env.tokens s.transfers x fun log => { s with transfers := log }

def callStaking (contract : Address) (call : StakingCall) : Result TimelockError Unit :=
  trapUnless (env.staking contract call)

def requireActive (s : State) : Result TimelockError Unit := do
  let state ← getRequired s.state
  match state with
  | .released => .error (.error .alreadyReleased)
  | .cancelled => .error (.error .alreadyCancelled)
  | .active => return ()

def minDeadlineBuffer : ℕ := 10

def validateDeadline (deadline : ℕ) : Result TimelockError Unit := do
  let earliest ← unwrap (checkedAddU32 env.sequence minDeadlineBuffer)
  rejectIf (deadline < earliest) .invalidReleaseLedger

/-- The single-token record, and the same again keyed by token. -/
def storeLock (admin token beneficiary : Address) (releaseLedger : ℕ) (amount : ℤ) (s : State) :
    State :=
  { s with
    admin := some admin, token := some token, beneficiary := some beneficiary,
    releaseLedger := some releaseLedger, amount := some amount, state := some .active,
    lockedBalance := Function.update s.lockedBalance token (some amount),
    tokenReleaseLedger := Function.update s.tokenReleaseLedger token (some releaseLedger),
    tokenCount := some 1, tokenAt := Function.update s.tokenAt 0 (some token) }

def initializeTimelock (admin token beneficiary : Address) (releaseLedger : ℕ) (amount : ℤ)
    (s : State) : Result TimelockError State := do
  rejectIf s.state.isSome .alreadyInitialized
  rejectIf (amount ≤ 0) .invalidAmount
  validateDeadline env releaseLedger
  requireAuth env.toContext admin
  let s ← callTransfer env ⟨.lock releaseLedger, token, admin, self, amount⟩ s
  return storeLock admin token beneficiary releaseLedger amount s

def initializeWithStaking (admin token beneficiary : Address) (releaseLedger : ℕ) (amount : ℤ)
    (stakingContract yieldRecipient : Address) (s : State) : Result TimelockError State := do
  rejectIf s.state.isSome .alreadyInitialized
  rejectIf (amount ≤ 0) .invalidAmount
  rejectIf (releaseLedger ≤ env.sequence) .invalidReleaseLedger
  requireAuth env.toContext admin
  let s ← callTransfer env ⟨.lock releaseLedger, token, admin, self, amount⟩ s
  return { storeLock admin token beneficiary releaseLedger amount s with
    stakingContract := some stakingContract, yieldRecipient := some yieldRecipient,
    deposited := some false }

/-- The accumulator is the total and the ledger of the last tranche. -/
def checkTranche (acc : ℤ × ℕ) (tranche : ReleaseTranche) : Result TimelockError (ℤ × ℕ) := do
  rejectIf (tranche.amount ≤ 0) .invalidAmount
  rejectIf (tranche.releaseLedger ≤ acc.2) .invalidReleaseLedger
  let total ← okOr (checkedAdd acc.1 tranche.amount) .invalidAmount
  return (total, tranche.releaseLedger)

def initializeWithTranches (admin token beneficiary : Address) (tranches : List ReleaseTranche)
    (s : State) : Result TimelockError State := do
  rejectIf s.state.isSome .alreadyInitialized
  rejectIf tranches.isEmpty .invalidAmount
  requireAuth env.toContext admin
  let (totalAmount, _) ← tranches.foldlM checkTranche (0, 0)
  let first ← unwrap tranches.head?
  rejectIf (first.releaseLedger ≤ env.sequence) .invalidReleaseLedger
  let s ← callTransfer env ⟨.fund, token, admin, self, totalAmount⟩ s
  -- the loop writes both keys of every index
  return { storeLock admin token beneficiary first.releaseLedger totalAmount s with
    tranche := fun i => if i < tranches.length then tranches[i]? else s.tranche i,
    trancheReleased := fun i => if i < tranches.length then some false else s.trancheReleased i,
    trancheCount := some tranches.length }

def depositLockedBalance (s : State) : Result TimelockError State := do
  requireActive s
  let stakingContract ← okOr s.stakingContract .stakingNotConfigured
  rejectIf (s.deposited.getD false) .alreadyDeposited
  let token ← getRequired s.token
  let amount ← getRequired s.amount
  let s ← callTransfer env ⟨.stake, token, self, stakingContract, amount⟩ s
  callStaking env stakingContract (.stake self amount)
  return { s with deposited := some true, stakedAmount := some amount }

def withdrawAndUnbond (s : State) : Result TimelockError State := do
  requireActive s
  let stakingContract ← okOr s.stakingContract .stakingNotConfigured
  rejectIf (¬ s.deposited.getD false) .notDeposited
  let stakedAmount ← getRequired s.stakedAmount
  callStaking env stakingContract (.unstake self stakedAmount)
  callStaking env stakingContract (.withdraw self)
  return { s with deposited := some false }

/-- `release` first takes back what is staked. -/
def unstakeAll (s : State) : Result TimelockError State :=
  match s.stakingContract with
  | some staking =>
    if s.deposited.getD false then do
      let stakedAmount ← getRequired s.stakedAmount
      callStaking env staking (.unstake self stakedAmount)
      callStaking env staking (.withdraw self)
      return { s with deposited := some false }
    else return s
  | none => return s

/-- The registry of tokens takes a token once. -/
def registerToken (token : Address) (s : State) : Result TimelockError State :=
  let count := s.tokenCount.getD 0
  if (List.range count).any (fun i => s.tokenAt i = some token) then return s
  else do
    let next ← unwrap (checkedAddU32 count 1)
    return { s with
      tokenAt := Function.update s.tokenAt count (some token), tokenCount := some next }

def deposit (token : Address) (amount : ℤ) (releaseLedger : ℕ) (s : State) :
    Result TimelockError State := do
  requireActive s
  rejectIf (amount ≤ 0) .invalidAmount
  rejectIf (releaseLedger ≤ env.sequence) .invalidReleaseLedger
  let admin ← getRequired s.admin
  requireAuth env.toContext admin
  let s ← callTransfer env ⟨.lock releaseLedger, token, admin, self, amount⟩ s
  let newBalance ← okOr (checkedAdd ((s.lockedBalance token).getD 0) amount) .invalidAmount
  let s ← registerToken token { s with
    lockedBalance := Function.update s.lockedBalance token (some newBalance) }
  -- one schedule for all deposits of a token, the earliest
  if releaseLedger < (s.tokenReleaseLedger token).getD u32Max then
    return { s with
      tokenReleaseLedger := Function.update s.tokenReleaseLedger token (some releaseLedger) }
  else return s

/-- The accumulators of the tranche loop of `release`, with the flags it writes. -/
structure Sweep where
  totalReleased : ℤ := 0
  anyNewReleased : Bool := false
  allReleased : Bool := true
  trancheReleased : ℕ → Option Bool

def sweepStep (s : State) (acc : Sweep) (i : ℕ) : Result TimelockError Sweep := do
  let tranche ← okOr (s.tranche i) .notInitialized
  let isReleased := (acc.trancheReleased i).getD false
  if isReleased = false ∧ tranche.releaseLedger ≤ env.sequence then do
    let totalReleased ← unwrap (checkedAdd acc.totalReleased tranche.amount)
    return { acc with
      totalReleased, anyNewReleased := true,
      trancheReleased := Function.update acc.trancheReleased i (some true) }
  else if isReleased = false then return { acc with allReleased := false }
  else return acc

def releaseTranches (token beneficiary : Address) (count : ℕ) (s : State) :
    Result TimelockError State := do
  let sweep ← (List.range count).foldlM (sweepStep env s) { trancheReleased := s.trancheReleased }
  rejectIf (sweep.anyNewReleased = false) .notYetReleasable
  let s := { s with trancheReleased := sweep.trancheReleased }
  let s := if sweep.allReleased then { s with state := some .released } else s
  callTransfer env ⟨.payout, token, self, beneficiary, sweep.totalReleased⟩ s

/-- The token is the caller's, the ledger and the amount are those of the single-token
    record. -/
def releaseAll (token beneficiary : Address) (s : State) : Result TimelockError State := do
  let releaseLedger ← getRequired s.releaseLedger
  rejectIf (env.sequence < releaseLedger) .notYetReleasable
  let amount ← getRequired s.amount
  let s := { s with state := some .released }
  match s.stakingContract with
  | some _ => do
    let yieldRecipient ← okOr s.yieldRecipient .stakingNotConfigured
    let yieldAmount := saturatingSub (env.tokens.balance token self) amount
    let s ← callTransfer env ⟨.payout, token, self, beneficiary, amount⟩ s
    if 0 < yieldAmount then
      callTransfer env ⟨.accrued, token, self, yieldRecipient, yieldAmount⟩ s
    else return s
  | none => callTransfer env ⟨.payout, token, self, beneficiary, amount⟩ s

def release (token : Address) (s : State) : Result TimelockError State := do
  requireActive s
  let beneficiary ← getRequired s.beneficiary
  let s ← unstakeAll self env s
  match s.trancheCount with
  | some count => releaseTranches self env token beneficiary count s
  | none => releaseAll self env token beneficiary s

def claimableStep (s : State) (claimable : ℤ) (i : ℕ) : Result TimelockError ℤ := do
  let tranche ← okOr (s.tranche i) .notInitialized
  if (s.trancheReleased i).getD false = false ∧ tranche.releaseLedger ≤ env.sequence then
    return saturatingAdd claimable tranche.amount
  else return claimable

def claimableAmountInternal (token : Address) (s : State) : Result TimelockError ℤ :=
  match s.trancheCount with
  | some count => (List.range count).foldlM (claimableStep env s) 0
  | none =>
    if env.sequence < ((s.tokenReleaseLedger token).or s.releaseLedger).getD 0 then return 0
    else return (s.lockedBalance token).getD 0

def releasePartial (token : Address) (amount : ℤ) (s : State) : Result TimelockError State := do
  requireActive s
  rejectIf (amount ≤ 0) .invalidAmount
  let beneficiary ← getRequired s.beneficiary
  let claimable ← claimableAmountInternal env token s
  rejectIf (claimable < amount) .notYetReleasable
  let remaining := saturatingSub ((s.lockedBalance token).getD 0) amount
  let s := { s with lockedBalance := Function.update s.lockedBalance token (some remaining) }
  callTransfer env ⟨.payout, token, self, beneficiary, amount⟩ s

def alreadyReleasedStep (s : State) (alreadyReleased : ℤ) (i : ℕ) : Result TimelockError ℤ :=
  if (s.trancheReleased i).getD false then do
    let tranche ← okOr (s.tranche i) .notInitialized
    okOr (checkedAdd alreadyReleased tranche.amount) .invalidAmount
  else return alreadyReleased

def refundAmount (amount : ℤ) (s : State) : Result TimelockError ℤ :=
  match s.trancheCount with
  | some count => do
    let alreadyReleased ← (List.range count).foldlM (alreadyReleasedStep s) 0
    okOr (checkedSub amount alreadyReleased) .invalidAmount
  | none => return amount

def cancel (s : State) : Result TimelockError State := do
  let admin ← getRequired s.admin
  requireAuth env.toContext admin
  requireActive s
  let token ← getRequired s.token
  let amount ← getRequired s.amount
  let refund ← refundAmount amount s
  callTransfer env ⟨.refund, token, self, admin, refund⟩ { s with state := some .cancelled }

/-- Reads the tranches from two keys that no other entry point writes. -/
def rescheduleTranche (trancheId newReleaseLedger : ℕ) (s : State) :
    Result TimelockError State := do
  let admin ← getRequired s.admin
  let beneficiary ← getRequired s.beneficiary
  requireAuth env.toContext admin
  requireAuth env.toContext beneficiary
  let tranches ← getRequired s.tranches
  let released ← getRequired s.releasedTranches
  rejectIf (tranches.length ≤ trancheId) .invalidAmount
  let isReleased ← unwrap released[trancheId]?
  rejectIf (isReleased = true) .trancheAlreadyReleased
  validateDeadline env newReleaseLedger
  let tranche ← unwrap tranches[trancheId]?
  return { s with
    tranches := some (tranches.set trancheId { tranche with releaseLedger := newReleaseLedger }) }

def reassignBeneficiary (newBeneficiary : Address) (s : State) : Result TimelockError State := do
  let admin ← getRequired s.admin
  requireAuth env.toContext admin
  requireActive s
  let _ ← getRequired s.beneficiary
  return { s with beneficiary := some newBeneficiary }

end Entrypoints

inductive Call where
  | initializeTimelock (admin token beneficiary : Address) (releaseLedger : ℕ) (amount : I128)
  | initializeWithStaking (admin token beneficiary : Address) (releaseLedger : ℕ) (amount : I128)
      (stakingContract yieldRecipient : Address)
  | initializeWithTranches (admin token beneficiary : Address) (tranches : List ReleaseTranche)
  | depositLockedBalance
  | withdrawAndUnbond
  | deposit (token : Address) (amount : I128) (releaseLedger : ℕ)
  | release (token : Address)
  | releasePartial (token : Address) (amount : I128)
  | claimableAmount (token : Address)
  | cancel
  | rescheduleTranche (trancheId newReleaseLedger : ℕ)
  | reassignBeneficiary (newBeneficiary : Address)

structure Invocation extends Env where
  call : Call

/-- The contract at address `self`. -/
def exec (self : Address) (i : Invocation) (s : State) : Result TimelockError State :=
  let env := i.toEnv
  match i.call with
  | .initializeTimelock admin token beneficiary releaseLedger amount =>
    initializeTimelock self env admin token beneficiary releaseLedger amount s
  | .initializeWithStaking admin token beneficiary releaseLedger amount stakingContract
      yieldRecipient =>
    initializeWithStaking self env admin token beneficiary releaseLedger amount stakingContract
      yieldRecipient s
  | .initializeWithTranches admin token beneficiary tranches =>
    initializeWithTranches self env admin token beneficiary tranches s
  | .depositLockedBalance => depositLockedBalance self env s
  | .withdrawAndUnbond => withdrawAndUnbond self env s
  | .deposit token amount releaseLedger => deposit self env token amount releaseLedger s
  | .release token => release self env token s
  | .releasePartial token amount => releasePartial self env token amount s
  | .claimableAmount token => do
    let _ ← claimableAmountInternal env token s
    return s
  | .cancel => cancel self env s
  | .rescheduleTranche trancheId newReleaseLedger =>
    rescheduleTranche env trancheId newReleaseLedger s
  | .reassignBeneficiary newBeneficiary => reassignBeneficiary env newBeneficiary s

def run (self : Address) (s : State) (is : List Invocation) : State :=
  HostRuns.run (exec self) s is

end SorobanKit.Timelock
