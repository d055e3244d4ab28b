import SorobanKit.EscrowLifecycle
import SorobanKit.HostRuns

set_option autoImplicit false

/-!
# Disputes, and the entry points as one step function

`resolve_dispute` and `approve_dispute` end in `settle`, whose payouts are made by
functions the repository does not define. The part before `settle` is a `Decision` of its
own, so that reaching `settle` can be told apart from what it does.
-/
namespace SorobanKit.Escrow
open HostInteger HostInvocation HostTransfers

def raiseDispute (d : Deployment) (env : Env) (caller : Address) (s : State) :
    Result EscrowError State := do
  requireNotPaused d s
  let buyer ← getRequired s.buyer
  let seller ← getRequired s.seller
  rejectIf (caller ≠ buyer ∧ caller ≠ seller) .notAuthorized
  requireAuth env.toContext caller
  let state ← getRequired s.state
  rejectIf (¬ (state = .funded ∨ state = .delivered)) .invalidState
  return { s with state := some .disputed, disputeRaisedAt := some env.sequence }

def claimDisputeTimeout (d : Deployment) (env : Env) (s : State) : Result EscrowError State := do
  requireNotPaused d s
  let buyer ← getRequired s.buyer
  requireAuth env.toContext buyer
  requireState .disputed s
  let timeout := s.disputeTimeoutLedgers.getD 0
  rejectIf (timeout = 0) .noDisputeTimeout
  let raisedAt ← getRequired s.disputeRaisedAt
  rejectIf (saturatingSubU32 env.sequence raisedAt < timeout) .disputeTimeoutNotReached
  -- back to `Funded` for the helper, which asks for that state
  refundToBuyer d env { s with state := some .funded, disputeRaisedAt := none }

def bpsDenominator : ℤ := 10000

def computeArbiterFee (amount : ℤ) (s : State) : ℤ :=
  let feeBps := s.arbiterFeeBps.getD 0
  if feeBps = 0 ∨ amount ≤ 0 then 0
  else
    let product := min (amount * feeBps) 170141183460469231731687303715884105727
    min (product.tdiv bpsDenominator) amount

def payArbiterFee (d : Deployment) (env : Env) (arbiter : Address) (disputed : ℤ) (s : State) :
    Result EscrowError (ℤ × State) := do
  let fee := computeArbiterFee disputed s
  let s ← if 0 < fee then d.settlement.transferFunds env arbiter fee s else pure s
  return (disputed - fee, s)

def settle (d : Deployment) (env : Env) (arbiter : Address) (releaseToSeller : Bool) (s : State) :
    Result EscrowError State := do
  let disputed ← getRequired s.amount
  let (remaining, s) ← payArbiterFee d env arbiter disputed s
  if releaseToSeller then
    d.settlement.releaseToSellerAmount env remaining { s with state := some .delivered }
  else
    d.settlement.refundToBuyerAmount env remaining { s with state := some .funded }

/-- Where a dispute call stands before `settle`: it is over, or it goes on to settle. -/
inductive Decision where
  | done (s : State)
  | settle (s : State) (arbiter : Address) (releaseToSeller : Bool)

def Decision.finish (d : Deployment) (env : Env) : Decision → Result EscrowError State
  | .done s => return s
  | .settle s arbiter releaseToSeller => Escrow.settle d env arbiter releaseToSeller s

def approvals (s : State) : List (Address × Bool) := s.disputeApprovals.getD []

/-- The loop that rejects duplicates: `none` when this arbiter has not approved yet. -/
def recordedDirection (arbiter : Address) (recorded : List (Address × Bool)) : Option Bool :=
  (recorded.find? (fun a => a.1 = arbiter)).map Prod.snd

def approveDecision (d : Deployment) (env : Env) (arbiter : Address) (releaseToSeller : Bool)
    (s : State) : Result EscrowError Decision := do
  requireNotPaused d s
  requireState .disputed s
  let arbiters ← okOr s.arbiters .notInitialized
  rejectIf (arbiter ∉ arbiters) .notAuthorized
  requireAuth env.toContext arbiter
  let requiredSigs := s.requiredSignatures.getD 1
  match recordedDirection arbiter (approvals s) with
  | some direction => do
    rejectIf (direction ≠ releaseToSeller) .notAuthorized
    return .done s
  | none => do
    let recorded := approvals s ++ [(arbiter, releaseToSeller)]
    let s := { s with disputeApprovals := some recorded }
    if recorded.length < requiredSigs then return .done s
    else do
      -- all recorded directions must agree with the first one
      let direction := (recorded.head?.map Prod.snd).getD false
      rejectIf (∃ a ∈ recorded, a.2 ≠ direction) .notAuthorized
      return .settle { s with disputeApprovals := none } arbiter direction

def resolveSingle (env : Env) (caller : Address) (releaseToSeller : Bool) (s : State) :
    Result EscrowError Decision := do
  let arbiter ← okOr s.arbiter .notInitialized
  rejectIf (caller ≠ arbiter) .notAuthorized
  requireAuth env.toContext arbiter
  return .settle s arbiter releaseToSeller

def resolveMultisig (env : Env) (caller : Address) (arbiters : List Address) (requiredSigs : ℕ)
    (releaseToSeller : Bool) (s : State) : Result EscrowError Decision := do
  rejectIf (caller ∉ arbiters) .notAuthorized
  requireAuth env.toContext caller
  rejectIf ((approvals s).length < requiredSigs) .notAuthorized
  rejectIf (∃ a ∈ approvals s, a.2 ≠ releaseToSeller) .notAuthorized
  return .settle { s with disputeApprovals := none } caller releaseToSeller

def resolveDecision (env : Env) (caller : Address) (releaseToSeller : Bool) (s : State) :
    Result EscrowError Decision := do
  requireState .disputed s
  match s.arbiters with
  | some arbiters =>
    resolveMultisig env caller arbiters (s.requiredSignatures.getD 1) releaseToSeller s
  | none => resolveSingle env caller releaseToSeller s

def approveDispute (d : Deployment) (env : Env) (arbiter : Address) (releaseToSeller : Bool)
    (s : State) : Result EscrowError State := do
  let decision ← approveDecision d env arbiter releaseToSeller s
  decision.finish d env

def resolveDispute (d : Deployment) (env : Env) (caller : Address) (releaseToSeller : Bool)
    (s : State) : Result EscrowError State := do
  let decision ← resolveDecision env caller releaseToSeller s
  decision.finish d env

def setPaused (d : Deployment) (env : Env) (paused : Bool) (s : State) :
    Result EscrowError State := do
  trapUnless d.pausable
  let admin ← getRequired s.admin
  requireAuth env.toContext admin
  return { s with paused := some paused }

def pause (d : Deployment) (env : Env) (s : State) : Result EscrowError State :=
  setPaused d env true s

def unpause (d : Deployment) (env : Env) (s : State) : Result EscrowError State :=
  setPaused d env false s

def bump (s : State) : Result EscrowError State := do
  rejectIf s.state.isNone .notInitialized
  return s

inductive Call where
  | initializeEscrow (admin buyer seller arbiter tokenContract : Address) (amount : ℤ)
      (deadlineLedger disputeTimeoutLedgers : ℕ) (gracePeriodLedgers : Option ℕ)
      (metadataHash : Option Hash) (arbiterFeeBps : Option ℕ)
  | initializeWithAbandonmentBuffer (admin buyer seller arbiter tokenContract : Address)
      (amount : ℤ) (deadlineLedger disputeTimeoutLedgers abandonmentBuffer : ℕ)
      (gracePeriodLedgers : Option ℕ) (metadataHash : Option Hash)
  | initializeWithArbiters (admin buyer seller : Address) (arbiters : List Address)
      (tokenContract : Address) (amount : ℤ)
      (deadlineLedger requiredSignatures disputeTimeoutLedgers : ℕ) (metadataHash : Option Hash)
  | initializeWithMilestones (admin buyer seller arbiter tokenContract : Address)
      (milestones : List Milestone) (deadlineLedger disputeTimeoutLedgers : ℕ)
      (metadataHash : Option Hash)
  | initializeWithTokens (admin buyer seller arbiter : Address) (tokenContracts : List Address)
      (tokenAmounts : List ℤ) (deadlineLedger disputeTimeoutLedgers : ℕ)
      (metadataHash : Option Hash)
  | updateAmount (newAmount : ℤ)
  | fund
  | markDelivered
  | approveDelivery
  | releasePartial (amount : ℤ)
  | requestRefund
  | requestPartialRefund
  | claimExpiredRefund
  | cancel
  | mutualCancel (buyer seller : Address)
  | approveMilestonePartial (milestoneId : ℕ) (releaseAmount : ℤ)
  | releaseMilestone (caller : Address) (milestoneIndex : ℕ)
  | extendDeadline (newDeadline : ℕ)
  | setFeeConfig (feeBps : ℕ) (treasury : Address)
  | fundMultiToken
  | releaseMultiToken
  | refundMultiToken
  | raiseDispute (caller : Address)
  | claimDisputeTimeout
  | approveDispute (arbiter : Address) (releaseToSeller : Bool)
  | resolveDispute (caller : Address) (releaseToSeller : Bool)
  | pause
  | unpause
  | bump

structure Invocation extends Env where
  call : Call

def exec (d : Deployment) (i : Invocation) (s : State) : Result EscrowError State :=
  let env := i.toEnv
  match i.call with
  | .initializeEscrow admin buyer seller arbiter tokenContract amount deadlineLedger
      disputeTimeoutLedgers gracePeriodLedgers metadataHash arbiterFeeBps =>
    initializeEscrow env admin buyer seller arbiter tokenContract amount deadlineLedger
      disputeTimeoutLedgers gracePeriodLedgers metadataHash arbiterFeeBps s
  | .initializeWithAbandonmentBuffer admin buyer seller arbiter tokenContract amount
      deadlineLedger disputeTimeoutLedgers abandonmentBuffer gracePeriodLedgers metadataHash =>
    initializeWithAbandonmentBuffer env admin buyer seller arbiter tokenContract amount
      deadlineLedger disputeTimeoutLedgers abandonmentBuffer gracePeriodLedgers metadataHash s
  | .initializeWithArbiters admin buyer seller arbiters tokenContract amount deadlineLedger
      requiredSignatures disputeTimeoutLedgers metadataHash =>
    initializeWithArbiters env admin buyer seller arbiters tokenContract amount deadlineLedger
      requiredSignatures disputeTimeoutLedgers metadataHash s
  | .initializeWithMilestones admin buyer seller arbiter tokenContract milestones deadlineLedger
      disputeTimeoutLedgers metadataHash =>
    initializeWithMilestones env admin buyer seller arbiter tokenContract milestones
      deadlineLedger disputeTimeoutLedgers metadataHash s
  | .initializeWithTokens admin buyer seller arbiter tokenContracts tokenAmounts deadlineLedger
      disputeTimeoutLedgers metadataHash =>
    initializeWithTokens env admin buyer seller arbiter tokenContracts tokenAmounts
      deadlineLedger disputeTimeoutLedgers metadataHash s
  | .updateAmount newAmount => updateAmount env newAmount s
  | .fund => fund d env s
  | .markDelivered => markDelivered d env s
  | .approveDelivery => approveDelivery d env s
  | .releasePartial amount => releasePartial d env amount s
  | .requestRefund => requestRefund d env s
  | .requestPartialRefund => requestPartialRefund d env s
  | .claimExpiredRefund => claimExpiredRefund d env s
  | .cancel => cancel env s
  | .mutualCancel buyer seller => mutualCancel d env buyer seller s
  | .approveMilestonePartial milestoneId releaseAmount =>
    approveMilestonePartial d env milestoneId releaseAmount s
  | .releaseMilestone caller milestoneIndex => releaseMilestone d env caller milestoneIndex s
  | .extendDeadline newDeadline => extendDeadline env newDeadline s
  | .setFeeConfig feeBps treasury => setFeeConfig env feeBps treasury s
  | .fundMultiToken => fundMultiToken d env s
  | .releaseMultiToken => releaseMultiToken d env s
  | .refundMultiToken => refundMultiToken d env s
  | .raiseDispute caller => raiseDispute d env caller s
  | .claimDisputeTimeout => claimDisputeTimeout d env s
  | .approveDispute arbiter releaseToSeller => approveDispute d env arbiter releaseToSeller s
  | .resolveDispute caller releaseToSeller => resolveDispute d env caller releaseToSeller s
  | .pause => pause d env s
  | .unpause => unpause d env s
  | .bump => bump s

def run (d : Deployment) (s : State) (is : List Invocation) : State := HostRuns.run (exec d) s is

/-- The verdict with which an invocation reaches `settle`, if it does. -/
def settleVerdict (d : Deployment) (i : Invocation) (s : State) : Option Bool :=
  let decision := match i.call with
    | .approveDispute arbiter releaseToSeller =>
      approveDecision d i.toEnv arbiter releaseToSeller s
    | .resolveDispute caller releaseToSeller => resolveDecision i.toEnv caller releaseToSeller s
    | _ => .error .trap
  match decision with
  | .ok (.settle _ _ releaseToSeller) => some releaseToSeller
  | _ => none

end SorobanKit.Escrow
