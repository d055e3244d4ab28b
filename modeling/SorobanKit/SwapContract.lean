import Mathlib.Data.Finmap
import SorobanKit.CommonMath
import SorobanKit.HostInvocation
import SorobanKit.HostRuns
import SorobanKit.HostTransfers

set_option autoImplicit false

/-!
# Two-party token swaps

A maker offers an amount of one token for an amount of another, either pulled into the contract
when the swap is proposed or paid from an allowance when it is filled. The source merges several
versions: a proposal pulls its amount only if it is escrowed, a fee is forwarded once, and
`refund_hashlocked_swap` and `expire_swap` share one body. Basket swaps, pages, events and TTL bumps
are left out.
-/
namespace SorobanKit.Swap
open CommonMath HostInteger HostInvocation HostTransfers

inductive SwapError where
  | notAuthorized
  | swapNotFound
  | invalidState
  | deadlineExpired
  | invalidAmount
  | invalidDeadline
  | alreadyCompleted
  | alreadyCancelled
  | alreadyInitialized
  | notInitialized
  | invalidFee
  | mathOverflow
  | executionDelayExceeded
  | hashLockMismatch
  | notCreator
  deriving DecidableEq, Repr

abbrev Bytes32 := BitVec 256

inductive SwapState where
  | pending
  | executed
  | cancelled
  | expired
  deriving DecidableEq, Repr

structure SwapInfo where
  id : ℕ
  partyA : Address
  tokenA : Address
  amountA : ℤ
  tokenB : Address
  amountB : ℤ
  expiresAt : ℕ
  state : SwapState
  filledAmount : ℤ
  remainingAmount : ℤ
  allowPartialFills : Bool
  escrowed : Bool
  allowedCounterparty : Option Address
  maxExecutionDelay : Option ℕ
  createdAt : ℕ
  hashLock : Option Bytes32
  deriving DecidableEq, Repr

/-- Why tokens move, and for which swap. -/
inductive Purpose where
  | escrow (swapId : ℕ)
  | payment (swapId : ℕ)
  | proceeds (swapId : ℕ)
  | referral (swapId : ℕ)
  | fee (swapId : ℕ)
  | fill (swapId : ℕ)
  | refund (swapId : ℕ)
  deriving DecidableEq, Repr

structure State where
  initialized : Option Bool := none
  admin : Option Address := none
  treasury : Option Address := none
  feeBps : Option ℕ := none
  swapCount : Option ℕ := none
  swaps : Finmap (fun _ : ℕ => SwapInfo) := ∅
  transfers : List (Transfer Purpose) := []

/-- `reported` is what the tokens answer for the balance of the contract, after the transfers that
    were made. -/
structure Env extends Context where
  tokens : TokenReplies Purpose
  reported : List (Transfer Purpose) → Address → ℤ

def mapStateErr : SwapState → SwapError
  | .executed => .alreadyCompleted
  | .cancelled => .alreadyCancelled
  | .expired => .alreadyCancelled
  | .pending => .invalidState

def ensureValidLegAmount (amount : ℤ) : Result SwapError Unit := rejectIf (amount ≤ 0) .invalidAmount

def requirePending (state : SwapState) : Result SwapError Unit :=
  rejectIf (state ≠ .pending) (mapStateErr state)

def calculateAndValidateFee (amountB : ℤ) (feeBps : ℕ) : Result SwapError ℤ :=
  if feeBps = 0 then return 0
  else do
    let rawFee ← okOr (applyBpsFee amountB feeBps) .mathOverflow
    let fee := if rawFee = 0 ∧ 0 < amountB then 1 else rawFee
    rejectIf (amountB < fee) .invalidAmount
    return fee

section Entrypoints
variable (sha256 : Bytes32 → Bytes32) (house : Address) (env : Env)

def initializeSwaps (admin treasury : Address) (feeBps : ℕ) (s : State) : Result SwapError State := do
  rejectIf s.initialized.isSome .alreadyInitialized
  rejectIf (10000 < feeBps) .invalidFee
  requireAuth env.toContext admin
  return { s with
    initialized := some true, admin := some admin, treasury := some treasury, feeBps := some feeBps
    swapCount := some 0 }

def requireAdmin (s : State) : Result SwapError Unit := do
  let admin ← okOr s.admin .notInitialized
  requireAuth env.toContext admin

def setTreasury (newTreasury : Address) (s : State) : Result SwapError State := do
  requireAdmin env s
  return { s with treasury := some newTreasury }

def setFeeBps (newFeeBps : ℕ) (s : State) : Result SwapError State := do
  requireAdmin env s
  rejectIf (10000 < newFeeBps) .invalidFee
  return { s with feeBps := some newFeeBps }

def setAdmin (newAdmin : Address) (s : State) : Result SwapError State := do
  requireAdmin env s
  return { s with admin := some newAdmin }

def callTransfer (x : Transfer Purpose) (s : State) : Result SwapError State :=
  recordTransfer env.tokens s.transfers x fun log => { s with transfers := log }

def payPositive (x : Transfer Purpose) (s : State) : Result SwapError State :=
  if 0 < x.amount then callTransfer env x s else return s

/-- Returns what the contract has gained. -/
def transferInMeasured (purpose : Purpose) (token source : Address) (amount : ℤ) (s : State) :
    Result SwapError (ℤ × State) := do
  let before := env.reported s.transfers token
  let s ← callTransfer env ⟨purpose, token, source, house, amount⟩ s
  let after := env.reported s.transfers token
  return (saturatingSub after before, s)

def putSwap (swap : SwapInfo) (swapId : ℕ) (s : State) : State :=
  { s with swaps := s.swaps.insert swapId swap }

/-- What a proposal says. -/
structure Terms where
  partyA : Address
  tokenA : Address
  amountA : ℤ
  tokenB : Address
  amountB : ℤ
  expiresAt : ℕ
  allowedCounterparty : Option Address
  maxExecutionDelay : Option ℕ
  deriving DecidableEq, Repr

def pullEscrow (swapId : ℕ) (terms : Terms) (escrowed : Bool) (s : State) :
    Result SwapError State :=
  if escrowed then do
    let (_, s) ← transferInMeasured house env (.escrow swapId) terms.tokenA terms.partyA
      terms.amountA s
    return s
  else return s

def proposeSwapWithOptions (terms : Terms) (allowPartialFills escrowed : Bool)
    (hashLock : Option Bytes32) (s : State) : Result SwapError (ℕ × State) := do
  rejectIf s.initialized.isNone .notInitialized
  requireAuth env.toContext terms.partyA
  ensureValidLegAmount terms.amountA
  ensureValidLegAmount terms.amountB
  rejectIf (terms.expiresAt ≤ env.sequence) .invalidDeadline
  let swapId := s.swapCount.getD 0
  let nextId ← okOr (checkedAddU32 swapId 1) .invalidAmount
  let s ← pullEscrow house env swapId terms escrowed s
  let swap : SwapInfo := {
    id := swapId, partyA := terms.partyA, tokenA := terms.tokenA, amountA := terms.amountA
    tokenB := terms.tokenB, amountB := terms.amountB, expiresAt := terms.expiresAt
    state := .pending, filledAmount := 0, remainingAmount := terms.amountA, allowPartialFills
    escrowed, allowedCounterparty := terms.allowedCounterparty
    maxExecutionDelay := terms.maxExecutionDelay, createdAt := env.sequence, hashLock }
  return (swapId, { putSwap swap swapId s with swapCount := some nextId })

def proposeSwap (terms : Terms) (s : State) : Result SwapError (ℕ × State) :=
  proposeSwapWithOptions house env terms false false none s

def getSwap (swapId : ℕ) (s : State) : Result SwapError SwapInfo :=
  okOr (s.swaps.lookup swapId) .swapNotFound

/-- What is filled moves from remaining to filled. -/
def advance (swap : SwapInfo) (amount : ℤ) : Result SwapError SwapInfo := do
  let filled ← okOr (checkedAdd swap.filledAmount amount) .mathOverflow
  let remaining ← okOr (checkedSub swap.remainingAmount amount) .mathOverflow
  return { swap with
    filledAmount := filled, remainingAmount := remaining
    state := if remaining = 0 then .executed else swap.state }

def fillAmountB (swap : SwapInfo) (fillAmountA : ℤ) : Result SwapError ℤ := do
  let amount ← okOr (mulDiv fillAmountA swap.amountB swap.amountA).toOption .mathOverflow
  ensureValidLegAmount amount
  return amount

/-- The revealed preimage against the stored hash lock. -/
def checkHashLock (secretPreimage hashLock : Option Bytes32) : Result SwapError Unit :=
  match hashLock with
  | some hashLock => do
    let preimage ← okOr secretPreimage .hashLockMismatch
    rejectIf (sha256 preimage ≠ hashLock) .hashLockMismatch
  | none => .ok ()

/-- Taker, delay window and hash lock of a swap. -/
def checkGuards (taker : Address) (secretPreimage : Option Bytes32) (swap : SwapInfo) :
    Result SwapError Unit := do
  rejectIf (∃ allowed ∈ swap.allowedCounterparty, taker ≠ allowed) .notAuthorized
  rejectIf (∃ maxDelay ∈ swap.maxExecutionDelay,
    saturatingAddU32 swap.createdAt maxDelay < env.sequence) .executionDelayExceeded
  checkHashLock sha256 secretPreimage swap.hashLock

/-- Half of the fee goes to the referrer, if there is one. -/
def forwardFee (swapId : ℕ) (tokenB treasury : Address) (referrer : Option Address) (fee : ℤ)
    (s : State) : Result SwapError State :=
  if 0 < fee then
    match referrer with
    | some referrer => do
      let referralFee := fee.tdiv 2
      let treasuryFee ← okOr (checkedSub fee referralFee) .mathOverflow
      let s ← payPositive env ⟨.referral swapId, tokenB, house, referrer, referralFee⟩ s
      payPositive env ⟨.fee swapId, tokenB, house, treasury, treasuryFee⟩ s
    | none => callTransfer env ⟨.fee swapId, tokenB, house, treasury, fee⟩ s
  else return s

/-- What the maker offered, out of the escrow or by the maker's allowance. -/
def deliver (swapId : ℕ) (swap : SwapInfo) (taker : Address) (amount : ℤ) (s : State) :
    Result SwapError State :=
  if swap.escrowed then callTransfer env ⟨.fill swapId, swap.tokenA, house, taker, amount⟩ s
  else callTransfer env ⟨.fill swapId, swap.tokenA, swap.partyA, taker, amount⟩ s

def executeSwap (taker : Address) (swapId : ℕ) (fillAmountA : ℤ) (secretPreimage : Option Bytes32)
    (referrer : Option Address) (s : State) : Result SwapError (ℕ × State) := do
  requireAuth env.toContext taker
  ensureValidLegAmount fillAmountA
  let feeBps ← okOr s.feeBps .notInitialized
  let treasury ← okOr s.treasury .notInitialized
  let swap ← getSwap swapId s
  requirePending swap.state
  rejectIf (swap.expiresAt < env.sequence) .deadlineExpired
  checkGuards sha256 env taker secretPreimage swap
  rejectIf (swap.remainingAmount < fillAmountA) .invalidAmount
  rejectIf (swap.allowPartialFills = false ∧ fillAmountA ≠ swap.remainingAmount) .invalidState
  let amountB ← fillAmountB swap fillAmountA
  let fee ← calculateAndValidateFee amountB feeBps
  let _ ← okOr (checkedSub amountB fee) .mathOverflow
  let (receivedB, s) ← transferInMeasured house env (.payment swapId) swap.tokenB taker amountB s
  let actualFee ← calculateAndValidateFee receivedB feeBps
  let actualPartyAAmount ← okOr (checkedSub receivedB actualFee) .mathOverflow
  let s ← payPositive env ⟨.proceeds swapId, swap.tokenB, house, swap.partyA, actualPartyAAmount⟩ s
  let s ← forwardFee house env swapId swap.tokenB treasury referrer fee s
  let s ← deliver house env swapId swap taker fillAmountA s
  let swap ← advance swap fillAmountA
  return (swapId, putSwap swap swapId s)

def acceptSwap (taker : Address) (swapId : ℕ) (fillAmountA : ℤ) (s : State) :
    Result SwapError (ℕ × State) :=
  executeSwap sha256 house env taker swapId fillAmountA none none s

/-- The taker is the maker, and the amount is paid by the contract, escrowed or not. -/
def fillSwapPartial (swapId : ℕ) (fillAmount : ℤ) (s : State) : Result SwapError State := do
  ensureValidLegAmount fillAmount
  let swap ← getSwap swapId s
  requirePending swap.state
  rejectIf (swap.allowPartialFills = false) .invalidState
  rejectIf (swap.expiresAt < env.sequence) .deadlineExpired
  rejectIf (swap.remainingAmount < fillAmount) .invalidAmount
  let taker := swap.partyA
  requireAuth env.toContext taker
  let amountB ← fillAmountB swap fillAmount
  let s ← callTransfer env ⟨.payment swapId, swap.tokenB, taker, house, amountB⟩ s
  let s ← callTransfer env ⟨.proceeds swapId, swap.tokenB, house, swap.partyA, amountB⟩ s
  let s ← callTransfer env ⟨.fill swapId, swap.tokenA, house, taker, fillAmount⟩ s
  let swap ← advance swap fillAmount
  return putSwap swap swapId s

def returnEscrow (swapId : ℕ) (swap : SwapInfo) (remaining : ℤ) (s : State) :
    Result SwapError State :=
  if swap.escrowed then
    payPositive env ⟨.refund swapId, swap.tokenA, house, swap.partyA, remaining⟩ s
  else return s

/-- The escrow goes back, and the swap is closed as `state`. -/
def closeSwap (swapId : ℕ) (swap : SwapInfo) (remaining : ℤ) (state : SwapState) (s : State) :
    Result SwapError State := do
  let s ← returnEscrow house env swapId swap remaining s
  return putSwap { swap with state := state } swapId s

/-- What `cancel_swap` and `expire_swap` take for the rest of an escrow. -/
def unfilled (swap : SwapInfo) : Result SwapError ℤ :=
  if swap.escrowed then okOr (checkedSub swap.amountA swap.filledAmount) .mathOverflow
  else return 0

def closeUnfilled (swapId : ℕ) (swap : SwapInfo) (state : SwapState) (s : State) :
    Result SwapError State := do
  let remaining ← unfilled swap
  closeSwap house env swapId swap remaining state s

/-- The maker may cancel in time, and anyone afterwards. -/
def requireCanceller (swap : SwapInfo) : Result SwapError Unit :=
  if env.sequence ≤ swap.expiresAt then requireAuth env.toContext swap.partyA else .ok ()

def cancelSwap (swapId : ℕ) (s : State) : Result SwapError State := do
  rejectIf s.admin.isNone .notInitialized
  let swap ← getSwap swapId s
  requirePending swap.state
  requireCanceller env swap
  closeUnfilled house env swapId swap .cancelled s

def refundHashlockedSwap (swapId : ℕ) (s : State) : Result SwapError State := do
  let swap ← getSwap swapId s
  requirePending swap.state
  rejectIf swap.hashLock.isNone .invalidState
  rejectIf (env.sequence ≤ swap.expiresAt) .deadlineExpired
  requireAuth env.toContext swap.partyA
  closeSwap house env swapId swap swap.remainingAmount .cancelled s

def expireSwap (swapId : ℕ) (s : State) : Result SwapError State := do
  let swap ← getSwap swapId s
  requirePending swap.state
  rejectIf (env.sequence ≤ swap.expiresAt) .deadlineExpired
  closeUnfilled house env swapId swap .expired s

def cancelOne (creator : Address) (s : State) (swapId : ℕ) : Result SwapError State := do
  let swap ← getSwap swapId s
  requirePending swap.state
  rejectIf (swap.partyA ≠ creator) .notCreator
  closeSwap house env swapId swap swap.remainingAmount .cancelled s

def cancelSwapsBatch (creator : Address) (swapIds : List ℕ) (s : State) : Result SwapError State := do
  requireAuth env.toContext creator
  rejectIf (swapIds = []) .invalidAmount
  swapIds.foldlM (cancelOne house env creator) s

end Entrypoints

inductive Call where
  | initializeSwaps (admin treasury : Address) (feeBps : ℕ)
  | setTreasury (newTreasury : Address)
  | setFeeBps (newFeeBps : ℕ)
  | setAdmin (newAdmin : Address)
  | proposeSwap (terms : Terms)
  | proposeSwapWithOptions (terms : Terms) (allowPartialFills escrowed : Bool)
      (hashLock : Option Bytes32)
  | acceptSwap (taker : Address) (swapId : ℕ) (fillAmountA : ℤ)
  | executeSwap (taker : Address) (swapId : ℕ) (fillAmountA : ℤ) (secretPreimage : Option Bytes32)
      (referrer : Option Address)
  | fillSwapPartial (swapId : ℕ) (fillAmount : ℤ)
  | cancelSwap (swapId : ℕ)
  | refundHashlockedSwap (swapId : ℕ)
  | expireSwap (swapId : ℕ)
  | cancelSwapsBatch (creator : Address) (swapIds : List ℕ)
  deriving DecidableEq, Repr

structure Invocation extends Env where
  call : Call

variable (sha256 : Bytes32 → Bytes32) (house : Address)

def exec (i : Invocation) (s : State) : Result SwapError State :=
  match i.call with
  | .initializeSwaps admin treasury feeBps => initializeSwaps i.toEnv admin treasury feeBps s
  | .setTreasury newTreasury => setTreasury i.toEnv newTreasury s
  | .setFeeBps newFeeBps => setFeeBps i.toEnv newFeeBps s
  | .setAdmin newAdmin => setAdmin i.toEnv newAdmin s
  | .proposeSwap terms => do
    let (_, t) ← proposeSwap house i.toEnv terms s
    return t
  | .proposeSwapWithOptions terms allowPartialFills escrowed hashLock => do
    let (_, t) ← proposeSwapWithOptions house i.toEnv terms allowPartialFills escrowed hashLock s
    return t
  | .acceptSwap taker swapId fillAmountA => do
    let (_, t) ← acceptSwap sha256 house i.toEnv taker swapId fillAmountA s
    return t
  | .executeSwap taker swapId fillAmountA secretPreimage referrer => do
    let (_, t) ← executeSwap sha256 house i.toEnv taker swapId fillAmountA secretPreimage referrer s
    return t
  | .fillSwapPartial swapId fillAmount => fillSwapPartial house i.toEnv swapId fillAmount s
  | .cancelSwap swapId => cancelSwap house i.toEnv swapId s
  | .refundHashlockedSwap swapId => refundHashlockedSwap house i.toEnv swapId s
  | .expireSwap swapId => expireSwap house i.toEnv swapId s
  | .cancelSwapsBatch creator swapIds => cancelSwapsBatch house i.toEnv creator swapIds s

def run (is : List Invocation) : State := HostRuns.run (exec sha256 house) {} is

def history (is : List Invocation) : List (HostRuns.Entry State Invocation) :=
  HostRuns.history (exec sha256 house) {} is

end SorobanKit.Swap
