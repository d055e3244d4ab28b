import Mathlib.Data.BitVec
import Mathlib.Logic.Function.Basic
import SorobanKit.HostInteger
import SorobanKit.HostInvocation
import SorobanKit.HostRuns

set_option autoImplicit false

/-!
# The multisignature wallet

Storage, configuration and entry points of the M-of-N wallet. A proposal collects signatures
and their accumulated weight until it is executed by a call into its target contract; those
calls are kept in `dispatched`. Events, TTL bumps, queries and the off-chain signature check
write no storage and are left out.
-/
namespace SorobanKit.Multisig
open HostInteger HostInvocation

inductive MultisigError where
  | alreadyInitialized
  | notInitialized
  | invalidThreshold
  | invalidSigners
  | notSigner
  | transactionNotFound
  | alreadyExecuted
  | alreadySigned
  | thresholdNotMet
  | insufficientApprovals
  | proposalExpired
  | invalidWeight
  | notYetExpired
  | spendingLimitExceeded
  | invalidSpendingLimit
  deriving DecidableEq, Repr

/-- A host value; contracts pass it through unread. -/
abbrev Val := BitVec 64

/-- An entry of the `weights` argument; a weight is a `u32`. -/
structure SignerWeight where
  signer : Address
  weight : ℕ
  weight_le : weight ≤ u32Max

structure Transaction where
  id : ℕ
  proposer : Address
  target : Address
  function : String
  args : List Val
  signatures : List Address
  accumulatedWeight : ℕ
  executed : Bool
  expiryLedger : ℕ
  createdLedger : ℕ
  nonce : ℕ
  deriving DecidableEq, Repr

structure TokenSpendingLimit where
  token : Address
  dailyLimit : ℤ
  spentAmount : ℤ
  lastRefillLedger : ℕ
  deriving DecidableEq, Repr

/-- A call into the target contract of an executed proposal. -/
structure Dispatch where
  txId : ℕ
  target : Address
  function : String
  args : List Val
  deriving DecidableEq, Repr

abbrev Weights := Address → Option ℕ

structure State where
  signers : Option (List Address) := none
  weights : Option Weights := none
  threshold : Option ℕ := none
  nextTransactionId : Option ℕ := none
  transaction : ℕ → Option Transaction := fun _ => none
  version : Option ℕ := none
  maxProposalValidityLedgers : Option ℕ := none
  spendingLimits : Address → Option TokenSpendingLimit := fun _ => none
  dispatched : List Dispatch := []

def State.empty : State := {}

/-- One invocation sees the ledger, its authorizations and what target contracts answer;
    a target that fails takes the invocation down. -/
structure Env extends Context where
  invoke : Dispatch → Option Val

/-- The loop keeps the signers it has seen. -/
def validateUniqueSigners (signers : List Address) : Result MultisigError Unit := do
  rejectIf signers.isEmpty .invalidSigners
  let _ ← signers.foldlM (fun seen signer => do
    rejectIf (signer ∈ seen) .invalidSigners
    return seen ++ [signer]) []
  return ()

def validateThreshold (threshold totalWeight : ℕ) : Result MultisigError Unit :=
  rejectIf (threshold = 0 ∨ totalWeight < threshold) .invalidThreshold

/-- Signers that `weights` does not list get weight 1; it may list others. -/
def buildWeightsMap (signers : List Address) (weights : Option (List SignerWeight)) :
    Result MultisigError Weights :=
  match weights with
  | none => return signers.foldl (fun map s => Function.update map s (some 1)) (fun _ => none)
  | some w => do
    let map ← w.foldlM (fun (map : Weights) sw => do
      rejectIf (sw.weight = 0) .invalidWeight
      return Function.update map sw.signer (some sw.weight)) (fun _ => none)
    return signers.foldl
      (fun map s => if (map s).isNone then Function.update map s (some 1) else map) map

def getWeight (weights : Weights) (signer : Address) : ℕ := (weights signer).getD 1

def totalWeight (signers : List Address) (weights : Weights) : ℕ :=
  signers.foldl (fun total s => saturatingAddU32 total (getWeight weights s)) 0

def signerWeightInternal (s : State) (signer : Address) : ℕ :=
  match s.weights with
  | some weights => getWeight weights signer
  | none => 1

def getRequiredSigners (s : State) : Result MultisigError (List Address) :=
  okOr s.signers .notInitialized

def getRequiredTransaction (s : State) (txId : ℕ) : Result MultisigError Transaction :=
  okOr (s.transaction txId) .transactionNotFound

def requireSigner (s : State) (signer : Address) : Result MultisigError Unit := do
  let signers ← getRequiredSigners s
  rejectIf (signer ∉ signers) .notSigner

def requireThresholdApprovals (ctx : Context) (approvals : List Address) (s : State) :
    Result MultisigError Unit := do
  validateUniqueSigners approvals
  let signers ← getRequiredSigners s
  let threshold ← okOr s.threshold .notInitialized
  let accumulated ← approvals.foldlM (fun accumulated approver => do
    rejectIf (approver ∉ signers) .notSigner
    requireAuth ctx approver
    return saturatingAddU32 accumulated (signerWeightInternal s approver)) 0
  rejectIf (accumulated < threshold) .insufficientApprovals

def initializeInternal (ctx : Context) (signers : List Address) (threshold : ℕ)
    (weights : Option (List SignerWeight)) (maxProposalValidityLedgers : Option ℕ) (s : State) :
    Result MultisigError State := do
  rejectIf s.signers.isSome .alreadyInitialized
  validateUniqueSigners signers
  let weightsMap ← buildWeightsMap signers weights
  validateThreshold threshold (totalWeight signers weightsMap)
  signers.forM (requireAuth ctx)
  let s := { s with
    signers := some signers, weights := some weightsMap, threshold := some threshold,
    nextTransactionId := some 0, version := some 1 }
  match maxProposalValidityLedgers with
  | some maxVal => return { s with maxProposalValidityLedgers := some maxVal }
  | none => return s

def addSigner (ctx : Context) (approvals : List Address) (signer : Address) (newThreshold : ℕ)
    (s : State) : Result MultisigError State := do
  let signers ← getRequiredSigners s
  requireThresholdApprovals ctx approvals s
  rejectIf (signer ∈ signers) .invalidSigners
  let signers := signers ++ [signer]
  let weightsMap := Function.update (s.weights.getD fun _ => none) signer (some 1)
  validateThreshold newThreshold (totalWeight signers weightsMap)
  return { s with
    signers := some signers, weights := some weightsMap, threshold := some newThreshold }

def removeSigner (ctx : Context) (approvals : List Address) (signer : Address) (newThreshold : ℕ)
    (s : State) : Result MultisigError State := do
  let signers ← getRequiredSigners s
  requireThresholdApprovals ctx approvals s
  rejectIf (signer ∉ signers) .notSigner
  let remaining := signers.filter (fun existing => existing ≠ signer)
  validateUniqueSigners remaining
  let weightsMap := Function.update (s.weights.getD fun _ => none) signer none
  validateThreshold newThreshold (totalWeight remaining weightsMap)
  -- signatures of `signer` on open proposals stay where they are
  return { s with
    signers := some remaining, weights := some weightsMap, threshold := some newThreshold }

/-- `if let Some(max_valid) = .. { if age > max_valid { return Err(ProposalExpired) } }` -/
def requireFresh (ctx : Context) (transaction : Transaction) (s : State) :
    Result MultisigError Unit :=
  match s.maxProposalValidityLedgers with
  | some maxValid =>
    rejectIf (maxValid < saturatingSubU32 ctx.sequence transaction.createdLedger) .proposalExpired
  | none => return ()

def proposePhase (ctx : Context) (proposer target : Address) (function : String) (args : List Val)
    (expiryLedgers : ℕ) (s : State) : Result MultisigError (ℕ × State) := do
  let txId ← okOr s.nextTransactionId .notInitialized
  let transaction : Transaction :=
    { id := txId, proposer, target, function, args, signatures := [proposer],
      accumulatedWeight := signerWeightInternal s proposer, executed := false,
      expiryLedger := saturatingAddU32 ctx.sequence expiryLedgers,
      createdLedger := ctx.sequence, nonce := txId }
  let next ← unwrap (checkedAddU64 txId 1)
  return (txId, { s with
    transaction := Function.update s.transaction txId (some transaction),
    nextTransactionId := some next })

def proposeTransaction (ctx : Context) (proposer target : Address) (function : String)
    (args : List Val) (expiryLedgers : ℕ) (s : State) : Result MultisigError (ℕ × State) := do
  requireSigner s proposer
  requireAuth ctx proposer
  rejectIf (∃ maxValid ∈ s.maxProposalValidityLedgers, maxValid < expiryLedgers) .proposalExpired
  proposePhase ctx proposer target function args expiryLedgers s

def votePhase (ctx : Context) (signer : Address) (txId : ℕ) (s : State) :
    Result MultisigError (ℕ × State) := do
  let transaction ← getRequiredTransaction s txId
  rejectIf transaction.executed .alreadyExecuted
  rejectIf (transaction.expiryLedger < ctx.sequence) .proposalExpired
  requireFresh ctx transaction s
  rejectIf (signer ∈ transaction.signatures) .alreadySigned
  let transaction := { transaction with
    signatures := transaction.signatures ++ [signer],
    accumulatedWeight :=
      saturatingAddU32 transaction.accumulatedWeight (signerWeightInternal s signer) }
  return (transaction.signatures.length,
    { s with transaction := Function.update s.transaction txId (some transaction) })

def signTransaction (ctx : Context) (signer : Address) (txId : ℕ) (s : State) :
    Result MultisigError (ℕ × State) := do
  requireSigner s signer
  requireAuth ctx signer
  votePhase ctx signer txId s

def executePhase (env : Env) (txId : ℕ) (s : State) : Result MultisigError (Val × State) := do
  let transaction ← getRequiredTransaction s txId
  rejectIf transaction.executed .alreadyExecuted
  rejectIf (transaction.expiryLedger < env.sequence) .proposalExpired
  requireFresh env.toContext transaction s
  let threshold ← okOr s.threshold .notInitialized
  rejectIf (transaction.accumulatedWeight < threshold) .thresholdNotMet
  let call : Dispatch := ⟨txId, transaction.target, transaction.function, transaction.args⟩
  let result ← unwrap (env.invoke call)
  return (result, { s with
    transaction := Function.update s.transaction txId (some { transaction with executed := true }),
    dispatched := s.dispatched ++ [call] })

/-- An error of one proposal is skipped: nothing is written before `execute_phase` returns
    one. A trap takes the whole batch down. -/
def batchStep (env : Env) (batch : List ℕ × State) (txId : ℕ) :
    Result MultisigError (List ℕ × State) :=
  match executePhase env txId batch.2 with
  | .ok (_, s) => .ok (batch.1 ++ [txId], s)
  | .error (.error _) => .ok batch
  | .error .trap => .error .trap

/-- Returns the ids that were executed. -/
def executeBatch (env : Env) (proposalIds : List ℕ) (s : State) :
    Result MultisigError (List ℕ × State) :=
  proposalIds.foldlM (batchStep env) ([], s)

def cleanupExpired (ctx : Context) (txId : ℕ) (s : State) : Result MultisigError State := do
  let transaction ← getRequiredTransaction s txId
  rejectIf transaction.executed .alreadyExecuted
  rejectIf (ctx.sequence ≤ transaction.expiryLedger) .notYetExpired
  return { s with transaction := Function.update s.transaction txId none }

def dayLedgers : ℕ := 17280

/-- An empty approval list passes with no authorization at all. -/
def requireLimitApprovals (ctx : Context) (approvals : List Address) (s : State) :
    Result MultisigError Unit :=
  if approvals.isEmpty then do
    let _ ← getRequiredSigners s
    return ()
  else requireThresholdApprovals ctx approvals s

def configureTokenLimit (ctx : Context) (approvals : List Address) (token : Address)
    (dailyLimit : ℤ) (s : State) : Result MultisigError State := do
  requireLimitApprovals ctx approvals s
  rejectIf (dailyLimit < 0) .invalidSpendingLimit
  let (spentAmount, lastRefillLedger) :=
    match s.spendingLimits token with
    | some existing => (existing.spentAmount, existing.lastRefillLedger)
    | none => (0, ctx.sequence)
  return { s with
    spendingLimits := Function.update s.spendingLimits token
      (some ⟨token, dailyLimit, spentAmount, lastRefillLedger⟩) }

/-- The signers are read and not asked. -/
def setTokenSpendingLimit (ctx : Context) (token : Address) (dailyLimit : ℤ) (s : State) :
    Result MultisigError State := do
  rejectIf (dailyLimit < 0) .invalidSpendingLimit
  return { s with
    spendingLimits := Function.update s.spendingLimits token
      (some ⟨token, dailyLimit, 0, ctx.sequence⟩) }

/-- The counter starts again a day after the last refill, or if the ledger went back. -/
def refill (ctx : Context) (l : TokenSpendingLimit) : Result MultisigError TokenSpendingLimit := do
  let due ← unwrap (checkedAddU32 l.lastRefillLedger dayLedgers)
  if due ≤ ctx.sequence ∨ ctx.sequence < l.lastRefillLedger then
    return { l with spentAmount := 0, lastRefillLedger := ctx.sequence }
  else return l

def checkSpendingLimit (ctx : Context) (token : Address) (amount : ℤ) (s : State) :
    Result MultisigError State := do
  rejectIf (amount < 0) .invalidSpendingLimit
  match s.spendingLimits token with
  | some l => do
    let l ← refill ctx l
    let spent ← unwrap (checkedAdd l.spentAmount amount)
    rejectIf (l.dailyLimit < spent) .spendingLimitExceeded
    return { s with
      spendingLimits := Function.update s.spendingLimits token
        (some { l with spentAmount := spent }) }
  | none => return s

inductive Call where
  | initializeWallet (signers : List Address) (threshold : ℕ) (weights : Option (List SignerWeight))
  | initializeWithConfig (signers : List Address) (threshold : ℕ)
      (weights : Option (List SignerWeight)) (maxProposalValidityLedgers : Option ℕ)
  | initializeWithValidity (signers : List Address) (threshold : ℕ)
      (weights : Option (List SignerWeight)) (maxProposalValidityLedgers : ℕ)
  | initializeLegacy (signers : List Address) (threshold : ℕ) (weights : Option (List SignerWeight))
  | initializeSimple (signers : List Address) (threshold : ℕ)
  | addSigner (approvals : List Address) (signer : Address) (newThreshold : ℕ)
  | removeSigner (approvals : List Address) (signer : Address) (newThreshold : ℕ)
  | proposeTransaction (proposer target : Address) (function : String) (args : List Val)
      (expiryLedgers : ℕ)
  | signTransaction (signer : Address) (txId : ℕ)
  | executeTransaction (txId : ℕ)
  | executeProposal (proposalId : ℕ)
  | executeProposalU32 (proposalId : ℕ)
  | executeBatch (proposalIds : List ℕ)
  | executeProposalsBatch (proposalIds : List ℕ)
  | executeProposalsBatchU32 (proposalIds : List ℕ)
  | cleanupExpired (txId : ℕ)
  | configureTokenLimit (approvals : List Address) (token : Address) (dailyLimit : ℤ)
  | setTokenSpendingLimit (token : Address) (dailyLimit : ℤ)
  | checkSpendingLimit (token : Address) (amount : ℤ)

structure Invocation extends Env where
  call : Call

def exec (i : Invocation) (s : State) : Result MultisigError State :=
  let ctx := i.toContext
  match i.call with
  | .initializeWallet signers threshold weights =>
    initializeInternal ctx signers threshold weights none s
  | .initializeWithConfig signers threshold weights maxProposalValidityLedgers =>
    initializeInternal ctx signers threshold weights maxProposalValidityLedgers s
  | .initializeWithValidity signers threshold weights maxProposalValidityLedgers =>
    initializeInternal ctx signers threshold weights (some maxProposalValidityLedgers) s
  | .initializeLegacy signers threshold weights =>
    initializeInternal ctx signers threshold weights none s
  | .initializeSimple signers threshold => initializeInternal ctx signers threshold none none s
  | .addSigner approvals signer newThreshold => addSigner ctx approvals signer newThreshold s
  | .removeSigner approvals signer newThreshold => removeSigner ctx approvals signer newThreshold s
  | .proposeTransaction proposer target function args expiryLedgers =>
    Prod.snd <$> proposeTransaction ctx proposer target function args expiryLedgers s
  | .signTransaction signer txId => Prod.snd <$> signTransaction ctx signer txId s
  | .executeTransaction txId => Prod.snd <$> executePhase i.toEnv txId s
  | .executeProposal proposalId => Prod.snd <$> executePhase i.toEnv proposalId s
  | .executeProposalU32 proposalId => Prod.snd <$> executePhase i.toEnv proposalId s
  | .executeBatch proposalIds => Prod.snd <$> executeBatch i.toEnv proposalIds s
  | .executeProposalsBatch proposalIds => Prod.snd <$> executeBatch i.toEnv proposalIds s
  | .executeProposalsBatchU32 proposalIds => Prod.snd <$> executeBatch i.toEnv proposalIds s
  | .cleanupExpired txId => cleanupExpired ctx txId s
  | .configureTokenLimit approvals token dailyLimit =>
    configureTokenLimit ctx approvals token dailyLimit s
  | .setTokenSpendingLimit token dailyLimit => setTokenSpendingLimit ctx token dailyLimit s
  | .checkSpendingLimit token amount => checkSpendingLimit ctx token amount s

/-- The storage after a run of invocations, failed ones rolled back. -/
def run (s : State) (is : List Invocation) : State := HostRuns.run exec s is

end SorobanKit.Multisig
