import SorobanKit.EscrowStorage

set_option autoImplicit false

/-!
# Entry points of the escrow: creation, funding, release and refund
-/
namespace SorobanKit.Escrow
open HostInteger HostInvocation HostTransfers

def minDeadlineBuffer : ℕ := 10
def maxArbiterFeeBps : ℕ := 2000

def validateAmount (amount : ℤ) : Result EscrowError Unit := rejectIf (amount ≤ 0) .invalidAmount

def validateParties (buyer seller arbiter : Address) : Result EscrowError Unit :=
  rejectIf (buyer = seller ∨ buyer = arbiter ∨ seller = arbiter) .invalidParties

/-- The nested loop over pairs `i < j`: no party and no later arbiter equals this one. -/
def checkArbiters (buyer seller : Address) : List Address → Result EscrowError Unit
  | [] => return ()
  | a :: rest => do
    rejectIf (a = buyer ∨ a = seller) .invalidParties
    rejectIf (a ∈ rest) .invalidParties
    checkArbiters buyer seller rest

/-- Buyer and seller are not compared with each other here. -/
def validatePartiesMulti (buyer seller : Address) (arbiters : List Address)
    (requiredSignatures : ℕ) : Result EscrowError Unit := do
  rejectIf (arbiters.isEmpty ∨ requiredSignatures = 0 ∨ arbiters.length < requiredSignatures)
    .invalidParties
  checkArbiters buyer seller arbiters

def validateArbiterFee (feeBps : Option ℕ) : Result EscrowError Unit :=
  rejectIf (maxArbiterFeeBps < feeBps.getD 0) .feeTooHigh

def validateDeadline (env : Env) (deadline : ℕ) : Result EscrowError Unit := do
  let earliest ← unwrap (checkedAddU32 env.sequence minDeadlineBuffer)
  rejectIf (deadline < earliest) .deadlinePassed

def storeEscrowData (admin buyer seller arbiter tokenContract : Address) (amount : ℤ)
    (deadlineLedger requiredSignatures disputeTimeoutLedgers abandonmentBuffer : ℕ)
    (s : State) : State :=
  { s with
    admin := some admin, buyer := some buyer, seller := some seller, arbiter := some arbiter,
    tokenContract := some tokenContract, amount := some amount, deadline := some deadlineLedger,
    state := some .created, requiredSignatures := some requiredSignatures, version := some 2,
    disputeTimeoutLedgers := some disputeTimeoutLedgers,
    abandonmentBuffer := some abandonmentBuffer }

/-- `if let Some(hash) = metadata_hash { set }` -/
def storeIfSome {α : Type} (new old : Option α) : Option α :=
  match new with
  | some a => some a
  | none => old

/-- `initialize` takes a grace period and does not store it. -/
def initializeEscrow (env : Env) (admin buyer seller arbiter tokenContract : Address) (amount : ℤ)
    (deadlineLedger disputeTimeoutLedgers : ℕ) (_gracePeriodLedgers : Option ℕ)
    (metadataHash : Option Hash) (arbiterFeeBps : Option ℕ) (s : State) :
    Result EscrowError State := do
  rejectIf s.state.isSome .alreadyInitialized
  validateAmount amount
  validateParties buyer seller arbiter
  validateArbiterFee arbiterFeeBps
  validateDeadline env deadlineLedger
  trapUnless (env.tokens.responds tokenContract)
  let s := storeEscrowData admin buyer seller arbiter tokenContract amount deadlineLedger 1
    disputeTimeoutLedgers 0 s
  return { s with
    arbiterFeeBps := storeIfSome arbiterFeeBps s.arbiterFeeBps,
    metadataHash := storeIfSome metadataHash s.metadataHash }

/-- The body stores a `grace_period_ledgers` that its signature lacks; it is an argument here. -/
def initializeWithAbandonmentBuffer (env : Env)
    (admin buyer seller arbiter tokenContract : Address) (amount : ℤ)
    (deadlineLedger disputeTimeoutLedgers abandonmentBuffer : ℕ) (gracePeriodLedgers : Option ℕ)
    (metadataHash : Option Hash) (s : State) : Result EscrowError State := do
  rejectIf s.state.isSome .alreadyInitialized
  validateAmount amount
  validateParties buyer seller arbiter
  validateDeadline env deadlineLedger
  trapUnless (env.tokens.responds tokenContract)
  let s := storeEscrowData admin buyer seller arbiter tokenContract amount deadlineLedger 1
    disputeTimeoutLedgers abandonmentBuffer s
  return { s with
    gracePeriodLedgers := storeIfSome gracePeriodLedgers s.gracePeriodLedgers,
    metadataHash := storeIfSome metadataHash s.metadataHash }

/-- The entry point also passes an arbiter fee, for which this function has no parameter. -/
def initializeWithArbiters (env : Env) (admin buyer seller : Address) (arbiters : List Address)
    (tokenContract : Address) (amount : ℤ)
    (deadlineLedger requiredSignatures disputeTimeoutLedgers : ℕ)
    (metadataHash : Option Hash) (s : State) : Result EscrowError State := do
  rejectIf s.state.isSome .alreadyInitialized
  validateAmount amount
  validatePartiesMulti buyer seller arbiters requiredSignatures
  validateDeadline env deadlineLedger
  trapUnless (env.tokens.responds tokenContract)
  let primaryArbiter ← unwrap arbiters.head?
  let s := storeEscrowData admin buyer seller primaryArbiter tokenContract amount deadlineLedger
    requiredSignatures disputeTimeoutLedgers 0 s
  return { s with
    arbiters := some arbiters, metadataHash := storeIfSome metadataHash s.metadataHash }

/-- The `released` flags of the given milestones are not looked at. -/
def milestoneTotal (milestones : List Milestone) : Result EscrowError ℤ :=
  milestones.foldlM (fun total m => do
    rejectIf (m.amount ≤ 0) .invalidAmount
    okOr (checkedAdd total m.amount) .insufficientFunds) 0

def initializeWithMilestones (env : Env) (admin buyer seller arbiter tokenContract : Address)
    (milestones : List Milestone) (deadlineLedger disputeTimeoutLedgers : ℕ)
    (metadataHash : Option Hash) (s : State) : Result EscrowError State := do
  rejectIf s.state.isSome .alreadyInitialized
  rejectIf milestones.isEmpty .invalidAmount
  let total ← milestoneTotal milestones
  validateAmount total
  validateParties buyer seller arbiter
  validateDeadline env deadlineLedger
  trapUnless (env.tokens.responds tokenContract)
  let s := storeEscrowData admin buyer seller arbiter tokenContract total deadlineLedger 1
    disputeTimeoutLedgers 0 s
  return { s with
    milestones := some milestones, metadataHash := storeIfSome metadataHash s.metadataHash }

/-- The call of `store_escrow_data` lacks the abandonment buffer; it is zero here as in the
    other variants without one. -/
def initializeWithTokens (env : Env) (admin buyer seller arbiter : Address)
    (tokenContracts : List Address) (tokenAmounts : List ℤ)
    (deadlineLedger disputeTimeoutLedgers : ℕ) (metadataHash : Option Hash) (s : State) :
    Result EscrowError State := do
  rejectIf s.state.isSome .alreadyInitialized
  rejectIf tokenContracts.isEmpty .emptyTokenList
  rejectIf (tokenContracts.length ≠ tokenAmounts.length) .tokenListMismatch
  (tokenContracts.zip tokenAmounts).forM fun (contract, amt) => do
    rejectIf (amt ≤ 0) .invalidAmount
    trapUnless (env.tokens.responds contract)
  validateParties buyer seller arbiter
  validateDeadline env deadlineLedger
  let leadToken ← unwrap tokenContracts.head?
  let leadAmount ← unwrap tokenAmounts.head?
  let s := storeEscrowData admin buyer seller arbiter leadToken leadAmount deadlineLedger 1
    disputeTimeoutLedgers 0 s
  return { s with
    tokenContracts := some tokenContracts, tokenAmounts := some tokenAmounts,
    metadataHash := storeIfSome metadataHash s.metadataHash }

def setFeeConfig (env : Env) (feeBps : ℕ) (treasury : Address) (s : State) :
    Result EscrowError State := do
  rejectIf s.state.isNone .notInitialized
  let admin ← getRequired s.admin
  requireAuth env.toContext admin
  rejectIf (10000 < feeBps) .feeTooHigh
  return { s with feeBps := some feeBps, treasury := some treasury }

/-- Net amount and fee of a gross release; the product is compiled with overflow checks. -/
def applyFee (gross : ℤ) (s : State) : Result EscrowError (ℤ × ℤ) :=
  let feeBps := s.feeBps.getD 0
  if feeBps = 0 then return (gross, 0)
  else do
    let product ← unwrap (checkedMul gross feeBps)
    let fee := product.tdiv 10000
    let net ← unwrap (checkedSub gross fee)
    return (net, fee)

def maybePayFee (d : Deployment) (env : Env) (fee : ℤ) (s : State) : Result EscrowError State :=
  if fee ≤ 0 then return s
  else
    match s.treasury with
    | some treasury => transferToken d env .fee treasury fee s
    | none => return s

/-- The disputable remainder; for a milestone escrow the stored amount is overwritten with
    the sum of the unreleased milestones. -/
def syncDisputableAmount (s : State) : Result EscrowError (ℤ × State) := do
  let stored ← getRequired s.amount
  match s.milestones with
  | none => return (stored, s)
  | some milestones => do
    let unreleased ← milestones.foldlM (fun acc m =>
      if m.released then return acc
      else okOr (checkedAdd acc m.amount) EscrowError.insufficientFunds) 0
    return (unreleased, if unreleased ≠ stored then { s with amount := some unreleased } else s)

def markAllMilestonesReleased (s : State) : State :=
  { s with milestones := s.milestones.map (·.map fun m => { m with released := true }) }

def releaseToSeller (d : Deployment) (env : Env) (s : State) : Result EscrowError State := do
  requireState .delivered s
  let seller ← getRequired s.seller
  let (amount, s) ← syncDisputableAmount s
  let s := markAllMilestonesReleased { s with state := some .completed, amount := some 0 }
  if 0 < amount then do
    let (net, fee) ← applyFee amount s
    let s ← acquireLock s
    let s ← transferToken d env .release seller net s
    let s ← maybePayFee d env fee s
    return releaseLock s
  else return s

def refundToBuyerWithState (d : Deployment) (env : Env) (state : EscrowState) (s : State) :
    Result EscrowError State := do
  requireState .funded s
  let buyer ← getRequired s.buyer
  let (amount, s) ← syncDisputableAmount s
  let s := markAllMilestonesReleased { s with state := some state, amount := some 0 }
  if 0 < amount then do
    let s ← acquireLock s
    let s ← transferToken d env .refund buyer amount s
    return releaseLock s
  else return s

def refundToBuyer (d : Deployment) (env : Env) (s : State) : Result EscrowError State :=
  refundToBuyerWithState d env .refunded s

def updateAmount (env : Env) (newAmount : ℤ) (s : State) : Result EscrowError State := do
  let buyer ← getRequired s.buyer
  requireAuth env.toContext buyer
  rejectIf (newAmount ≤ 0) .invalidAmount
  requireState .created s
  return { s with amount := some newAmount }

def fund (d : Deployment) (env : Env) (s : State) : Result EscrowError State := do
  requireNotPaused d s
  let buyer ← getRequired s.buyer
  requireAuth env.toContext buyer
  requireState .created s
  let tokenContract ← getRequired s.tokenContract
  let amount ← getRequired s.amount
  rejectIf (env.tokens.balance tokenContract buyer < amount) .insufficientFunds
  let s := { s with state := some .funded }
  let s ← acquireLock s
  let s ← callTransfer env ⟨.deposit, tokenContract, buyer, d.contractAddress, amount⟩ s
  return releaseLock s

def markDelivered (d : Deployment) (env : Env) (s : State) : Result EscrowError State := do
  requireNotPaused d s
  let seller ← getRequired s.seller
  requireAuth env.toContext seller
  requireState .funded s
  return { s with state := some .delivered, deliveryMarkedAt := some env.sequence }

def approveDelivery (d : Deployment) (env : Env) (s : State) : Result EscrowError State := do
  requireNotPaused d s
  let buyer ← getRequired s.buyer
  requireAuth env.toContext buyer
  releaseToSeller d env s

def releasePartial (d : Deployment) (env : Env) (amount : ℤ) (s : State) :
    Result EscrowError State := do
  requireNotPaused d s
  let buyer ← getRequired s.buyer
  requireAuth env.toContext buyer
  requireState .funded s
  rejectIf (amount ≤ 0) .invalidAmount
  let storedAmount ← getRequired s.amount
  rejectIf (storedAmount < amount) .insufficientFunds
  let seller ← getRequired s.seller
  let newAmount ← unwrap (checkedSub storedAmount amount)
  -- the milestones, if any, keep their amounts
  let s := { s with amount := some newAmount }
  let (net, fee) ← applyFee amount s
  let s ← acquireLock s
  let s ← transferToken d env .release seller net s
  let s ← maybePayFee d env fee s
  return releaseLock s

/-- The grace period after a delivery mark, when one is configured. -/
def withinGracePeriod (env : Env) (s : State) : Bool :=
  match s.deliveryMarkedAt with
  | some deliveryMarkedAt =>
    let gracePeriod := s.gracePeriodLedgers.getD 0
    0 < gracePeriod ∧ env.sequence < saturatingAddU32 deliveryMarkedAt gracePeriod
  | none => false

/-- `Delivered` passes the test here and is rejected by `refund_to_buyer`. -/
def requestRefund (d : Deployment) (env : Env) (s : State) : Result EscrowError State := do
  requireNotPaused d s
  let buyer ← getRequired s.buyer
  requireAuth env.toContext buyer
  let state ← getRequired s.state
  let deadline ← getRequired s.deadline
  rejectIf (env.sequence ≤ deadline) .deadlineNotReached
  rejectIf (state = .delivered ∧ withinGracePeriod env s) .deadlineNotReached
  rejectIf (¬ (state = .funded ∨ state = .delivered)) .invalidState
  refundToBuyer d env s

def requestPartialRefund (d : Deployment) (env : Env) (s : State) : Result EscrowError State := do
  requireNotPaused d s
  let buyer ← getRequired s.buyer
  requireAuth env.toContext buyer
  requireState .funded s
  let amount ← getRequired s.amount
  rejectIf (amount ≤ 0) .invalidAmount
  refundToBuyer d env s

def claimExpiredRefund (d : Deployment) (env : Env) (s : State) : Result EscrowError State := do
  requireNotPaused d s
  let buyer ← getRequired s.buyer
  requireAuth env.toContext buyer
  requireState .funded s
  let deadline ← getRequired s.deadline
  let buffer := s.abandonmentBuffer.getD 0
  rejectIf (env.sequence ≤ saturatingAddU32 deadline buffer) .deadlineNotReached
  refundToBuyerWithState d env .expiredRefunded s

def cancel (env : Env) (s : State) : Result EscrowError State := do
  let buyer ← getRequired s.buyer
  requireAuth env.toContext buyer
  requireState .created s
  return { s with state := some .cancelled }

def mutualCancel (d : Deployment) (env : Env) (buyer seller : Address) (s : State) :
    Result EscrowError State := do
  requireNotPaused d s
  let storedBuyer ← getRequired s.buyer
  let storedSeller ← getRequired s.seller
  rejectIf (buyer ≠ storedBuyer ∨ seller ≠ storedSeller) .notAuthorized
  requireAuth env.toContext buyer
  requireAuth env.toContext seller
  let state ← getRequired s.state
  rejectIf (¬ (state = .funded ∨ state = .delivered)) .invalidState
  let (amount, s) ← syncDisputableAmount s
  let s := markAllMilestonesReleased { s with state := some .cancelled, amount := some 0 }
  if 0 < amount then do
    let s ← acquireLock s
    let s ← transferToken d env .refund buyer amount s
    return releaseLock s
  else return s

def extendDeadline (env : Env) (newDeadline : ℕ) (s : State) : Result EscrowError State := do
  let buyer ← getRequired s.buyer
  let seller ← getRequired s.seller
  requireAuth env.toContext buyer
  requireAuth env.toContext seller
  let currentDeadline ← getRequired s.deadline
  let earliest ← unwrap (checkedAddU32 env.sequence minDeadlineBuffer)
  rejectIf (newDeadline < earliest) .deadlinePassed
  rejectIf (newDeadline ≤ currentDeadline) .deadlinePassed
  let state ← getRequired s.state
  rejectIf (¬ (state = .funded ∨ state = .delivered)) .invalidState
  return { s with deadline := some newDeadline }

/-- `Completed` once no milestone is left. -/
def completeIfDone (milestones : List Milestone) (s : State) : State :=
  if milestones.all (·.released) then { s with state := some .completed } else s

/-- `if release_amount > 0 { .. }` of `approve_milestone_partial`. -/
def releaseShare (d : Deployment) (env : Env) (seller : Address) (releaseAmount : ℤ) (s : State) :
    Result EscrowError State :=
  if 0 < releaseAmount then do
    let (net, fee) ← applyFee releaseAmount s
    let s ← transferToken d env .release seller net s
    maybePayFee d env fee s
  else return s

/-- `if refund > 0 { .. }` of `approve_milestone_partial`. -/
def refundShare (d : Deployment) (env : Env) (buyer : Address) (refund : ℤ) (s : State) :
    Result EscrowError State :=
  if 0 < refund then transferToken d env .refund buyer refund s else return s

def approveMilestonePartial (d : Deployment) (env : Env) (milestoneId : ℕ) (releaseAmount : ℤ)
    (s : State) : Result EscrowError State := do
  requireNotPaused d s
  let buyer ← getRequired s.buyer
  requireAuth env.toContext buyer
  requireState .funded s
  rejectIf (releaseAmount < 0) .invalidAmount
  let milestones ← okOr s.milestones .milestoneNotFound
  let m ← okOr milestones[milestoneId]? .milestoneNotFound
  rejectIf m.released .invalidState
  let allocated := m.amount
  rejectIf (allocated < releaseAmount) .invalidAmount
  let refund ← unwrap (checkedSub allocated releaseAmount)
  let milestones := milestones.set milestoneId { m with released := true }
  let remaining ← getRequired s.amount
  let newRemaining ← unwrap (checkedSub remaining allocated)
  let s := { s with milestones := some milestones, amount := some newRemaining }
  let seller ← getRequired s.seller
  let s ← acquireLock s
  let s ← releaseShare d env seller releaseAmount s
  let s ← refundShare d env buyer refund s
  return completeIfDone milestones (releaseLock s)

def releaseMilestone (d : Deployment) (env : Env) (caller : Address) (milestoneIndex : ℕ)
    (s : State) : Result EscrowError State := do
  requireNotPaused d s
  let buyer ← getRequired s.buyer
  let arbiter ← getRequired s.arbiter
  rejectIf (caller ≠ buyer ∧ caller ≠ arbiter) .notAuthorized
  requireAuth env.toContext caller
  requireState .funded s
  let milestones ← okOr s.milestones .milestoneNotFound
  let m ← okOr milestones[milestoneIndex]? .milestoneNotFound
  rejectIf m.released .invalidState
  let gross := m.amount
  let milestones := milestones.set milestoneIndex { m with released := true }
  let remaining ← getRequired s.amount
  let newRemaining ← unwrap (checkedSub remaining gross)
  let s := { s with milestones := some milestones, amount := some newRemaining }
  let seller ← getRequired s.seller
  let (net, fee) ← applyFee gross s
  let s ← acquireLock s
  let s ← transferToken d env .release seller net s
  let s ← maybePayFee d env fee s
  return completeIfDone milestones (releaseLock s)

def fundMultiToken (d : Deployment) (env : Env) (s : State) : Result EscrowError State := do
  requireNotPaused d s
  match basket s with
  | some items => do
    requireState .created s
    let buyer ← getRequired s.buyer
    requireAuth env.toContext buyer
    items.forM fun (contract, amt) =>
      rejectIf (env.tokens.balance contract buyer < amt) .insufficientFunds
    let s := { s with state := some .funded }
    let s ← acquireLock s
    let s ← items.foldlM (fun s (contract, amt) =>
      callTransfer env ⟨.deposit, contract, buyer, d.contractAddress, amt⟩ s) s
    return releaseLock s
  | none => fund d env s

/-- Neither this entry point nor the fallback asks anyone for authorization. -/
def releaseMultiToken (d : Deployment) (env : Env) (s : State) : Result EscrowError State := do
  requireNotPaused d s
  match basket s with
  | some items => do
    requireState .delivered s
    let seller ← getRequired s.seller
    let s := { s with state := some .completed, amount := some 0 }
    let s ← acquireLock s
    let s ← items.foldlM (fun s (contract, amt) =>
      if 0 < amt then do
        let (net, fee) ← applyFee amt s
        let s ← callTransfer env ⟨.release, contract, d.contractAddress, seller, net⟩ s
        match s.treasury with
        | some treasury =>
          if 0 < fee then callTransfer env ⟨.fee, contract, d.contractAddress, treasury, fee⟩ s
          else return s
        | none => return s
      else return s) s
    return releaseLock s
  | none => releaseToSeller d env s

def refundMultiToken (d : Deployment) (env : Env) (s : State) : Result EscrowError State := do
  requireNotPaused d s
  match basket s with
  | some items => do
    requireState .funded s
    let buyer ← getRequired s.buyer
    let s := { s with state := some .refunded, amount := some 0 }
    let s ← acquireLock s
    let s ← items.foldlM (fun s (contract, amt) =>
      if 0 < amt then callTransfer env ⟨.refund, contract, d.contractAddress, buyer, amt⟩ s
      else return s) s
    return releaseLock s
  | none => refundToBuyer d env s

end SorobanKit.Escrow
