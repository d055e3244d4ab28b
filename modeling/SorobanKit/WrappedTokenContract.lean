import SorobanKit.CommonMath
import SorobanKit.HostBalances
import SorobanKit.HostInvocation
import SorobanKit.HostRuns
import SorobanKit.HostTransfers

set_option autoImplicit false

/-!
# The wrapped token

The contract takes an underlying token in and mints a wrapped one for it. Two versions of it are
merged in the source: one does everything in batches and charges fees, the other wraps and unwraps
single amounts under limits. The wrapped token is a contract of its own, which mints for nobody
else; `holdings` is what it keeps. Events, TTL bumps and queries are left out.
-/
namespace SorobanKit.WrappedToken
open CommonMath HostBalances HostInteger HostInvocation HostTransfers

inductive WrappedTokenError where
  | alreadyInitialized
  | notInitialized
  | unauthorized
  | invalidAmount
  | insufficientBalance
  | insufficientReserve
  | maxWrapExceeded
  | overflow
  | invalidFee
  | emptyBatch
  | rateLimitExceeded
  | amountTooLow
  deriving DecidableEq, Repr

inductive Purpose where
  | deposit
  | payout
  | fee
  deriving DecidableEq, Repr

/-- `reserve` is what the underlying token holds for the contract. -/
structure State where
  admin : Option Address := none
  wrappedToken : Option Address := none
  underlyingToken : Option Address := none
  totalWrapped : Option ℤ := none
  paused : Option Bool := none
  wrapPaused : Option Bool := none
  unwrapPaused : Option Bool := none
  maxWrapPerAddress : Option ℤ := none
  wrappedByAddress : Balances Address := ∅
  wrapFeeBps : Option ℕ := none
  unwrapFeeBps : Option ℕ := none
  feeRecipient : Option Address := none
  minAmount : Option ℤ := none
  unwrapRateLimit : Option ℤ := none
  unwrapRateWindow : Option ℕ := none
  unwrapRateUsage : Option (ℕ × ℤ) := none
  unwrapRateLimitPaused : Option Bool := none
  unwrapCalls : Option (ℕ × ℕ) := none
  porOracle : Option Address := none
  holdings : Balances Address := ∅
  reserve : ℤ := 0
  transfers : List (Transfer Purpose) := []

/-- What the other contracts answer during one invocation: which transfers of the underlying token
    return and how much of them arrives, and what the oracles say. -/
structure Env extends Context where
  accepts : List (Transfer Purpose) → Transfer Purpose → Bool
  delivers : List (Transfer Purpose) → Transfer Purpose → ℕ
  getReserve : Address → Option ℤ

def supply (s : State) : ℤ := total s.holdings

def loadTokens (s : State) : Result WrappedTokenError (Address × Address) := do
  let wrappedToken ← okOr s.wrappedToken .notInitialized
  let underlyingToken ← okOr s.underlyingToken .notInitialized
  return (wrappedToken, underlyingToken)

def flag (x : Option Bool) : Bool := x.getD false

def requireWrapNotPaused (s : State) : Result WrappedTokenError Unit :=
  rejectIf (flag s.wrapPaused ∨ flag s.paused) .unauthorized

def requireUnwrapNotPaused (s : State) : Result WrappedTokenError Unit :=
  rejectIf (flag s.unwrapPaused ∨ flag s.paused) .unauthorized

/-- The guard of the single paths, from before pausing was split. -/
def requireNotPaused (s : State) : Result WrappedTokenError Unit :=
  rejectIf (flag s.paused) .unauthorized

def feeFor (bps : Option ℕ) (amount : ℤ) : Result WrappedTokenError ℤ :=
  if bps.getD 0 = 0 then return 0 else okOr (applyBpsFee amount (bps.getD 0)) .overflow

structure Split where
  gross : ℤ := 0
  fee : ℤ := 0
  nets : List ℤ := []
  deriving DecidableEq, Repr

/-- One round of the loop of `split_batch`. -/
def splitEntry (bps : Option ℕ) (acc : Split) (r : Address × ℤ) : Result WrappedTokenError Split := do
  rejectIf (r.2 ≤ 0) .invalidAmount
  let fee ← feeFor bps r.2
  let net ← okOr (checkedSub r.2 fee) .overflow
  rejectIf (net ≤ 0) .invalidAmount
  let gross ← okOr (checkedAdd acc.gross r.2) .overflow
  let fees ← okOr (checkedAdd acc.fee fee) .overflow
  return ⟨gross, fees, acc.nets ++ [net]⟩

def splitBatch (bps : Option ℕ) (recipients : List (Address × ℤ)) :
    Result WrappedTokenError Split := do
  rejectIf (recipients = []) .emptyBatch
  recipients.foldlM (splitEntry bps) {}

/-- A window that has passed makes room for one that starts now. -/
def openWindow {α : Type} (window now : ℕ) (fresh : α) (w : ℕ × α) : ℕ × α :=
  if saturatingAddU32 w.1 window ≤ now then (now, fresh) else w

/-- The new entry, unless there were too many calls. -/
def checkAndRecord (window maxCalls now : ℕ) (calls : Option (ℕ × ℕ)) : Option (ℕ × ℕ) :=
  let (start, count) := openWindow window now 0 (calls.getD (now, 0))
  if maxCalls ≤ count then none else some (start, saturatingAddU32 count 1)

/-- `u32::try_from(limit).unwrap_or(u32::MAX).max(1)` -/
def maxCalls (limit : ℤ) : ℕ :=
  max (if 0 ≤ limit ∧ limit ≤ u32Max then limit.toNat else u32Max) 1

/-- `UnwrapRateWindow`, which is never zero. -/
def rateWindow (s : State) : ℕ := max (s.unwrapRateWindow.getD 1) 1

section Entrypoints
variable (house : Address) (env : Env)

def enforceUnwrapRateLimit (amount : ℤ) (s : State) : Result WrappedTokenError State :=
  if s.unwrapRateLimitPaused.getD false then return s
  else match s.unwrapRateLimit with
    | none => return s
    | some limit => do
      let (start, used) := openWindow (rateWindow s) env.sequence 0
        (s.unwrapRateUsage.getD (env.sequence, 0))
      let newUsed ← okOr (checkedAdd used amount) .invalidAmount
      rejectIf (limit < newUsed) .rateLimitExceeded
      let calls ← okOr (checkAndRecord (rateWindow s) (maxCalls limit) env.sequence s.unwrapCalls)
        .rateLimitExceeded
      return { s with unwrapCalls := some calls, unwrapRateUsage := some (start, newUsed) }

/-- The sender loses the whole amount. -/
def callTransfer (x : Transfer Purpose) (s : State) : Result WrappedTokenError State := do
  trapUnless (env.accepts s.transfers x)
  return { s with
    reserve := s.reserve + (if x.target = house then (env.delivers s.transfers x : ℤ) else 0) -
      (if x.source = house then x.amount else 0),
    transfers := s.transfers ++ [x] }

def mint (recipient : Address) (amount : ℤ) (s : State) : Result WrappedTokenError State := do
  trapUnless (0 ≤ amount ∧ InI128 (entry s.holdings recipient + amount))
  return { s with holdings := credit s.holdings recipient amount }

def burn (user : Address) (amount : ℤ) (s : State) : Result WrappedTokenError State := do
  requireAuth env.toContext user
  trapUnless (0 ≤ amount ∧ amount ≤ entry s.holdings user)
  return { s with holdings := credit s.holdings user (-amount) }

/-- A holder of wrapped tokens moves them. -/
def transfer (source target : Address) (amount : ℤ) (s : State) : Result WrappedTokenError State := do
  let s ← burn env source amount s
  mint target amount s

/-- What a user wraps counts against its cap. -/
def countWrapped (code : WrappedTokenError) (user : Address) (amount : ℤ) (s : State) :
    Result WrappedTokenError State :=
  match s.maxWrapPerAddress with
  | none => return s
  | some cap => do
    let newUserTotal ← okOr (checkedAdd (entry s.wrappedByAddress user) amount) code
    rejectIf (cap < newUserTotal) .maxWrapExceeded
    return { s with wrappedByAddress := s.wrappedByAddress.insert user newUserTotal }

def payFee (underlying source : Address) (fee : ℤ) (s : State) : Result WrappedTokenError State :=
  if 0 < fee then do
    let feeRecipient ← okOr s.feeRecipient .invalidFee
    callTransfer house env ⟨.fee, underlying, source, feeRecipient, fee⟩ s
  else return s

/-- One round of the last loop of `do_wrap`; the running total only feeds the events. -/
def mintOne (acc : State × ℤ) (r : (Address × ℤ) × ℤ) : Result WrappedTokenError (State × ℤ) := do
  let s ← mint r.1.1 r.2 acc.1
  let runningTotal ← okOr (checkedAdd acc.2 r.2) .overflow
  return (s, runningTotal)

def doWrap (user : Address) (recipients : List (Address × ℤ)) (s : State) :
    Result WrappedTokenError State := do
  rejectIf s.admin.isNone .notInitialized
  requireWrapNotPaused s
  let split ← splitBatch s.wrapFeeBps recipients
  requireAuth env.toContext user
  let (_, underlying) ← loadTokens s
  let s ← countWrapped .overflow user split.gross s
  let total := s.totalWrapped.getD 0
  let netTotal ← okOr (checkedSub split.gross split.fee) .overflow
  let newTotal ← okOr (checkedAdd total netTotal) .overflow
  let s ← callTransfer house env ⟨.deposit, underlying, user, house, netTotal⟩ s
  let s ← payFee house env underlying user split.fee s
  let (s, _) ← (recipients.zip split.nets).foldlM mintOne (s, total)
  return { s with totalWrapped := some newTotal }

/-- One round of the loop of `do_unwrap`. -/
def payOne (underlying : Address) (acc : State × ℤ) (r : (Address × ℤ) × ℤ) :
    Result WrappedTokenError (State × ℤ) := do
  let s ← callTransfer house env ⟨.payout, underlying, house, r.1.1, r.2⟩ acc.1
  let runningTotal ← okOr (checkedSub acc.2 r.1.2) .overflow
  return (s, runningTotal)

def doUnwrap (user : Address) (recipients : List (Address × ℤ)) (s : State) :
    Result WrappedTokenError State := do
  rejectIf s.admin.isNone .notInitialized
  requireUnwrapNotPaused s
  let split ← splitBatch s.unwrapFeeBps recipients
  requireAuth env.toContext user
  let (_, underlying) ← loadTokens s
  let total := s.totalWrapped.getD 0
  let newTotal ← okOr (checkedSub total split.gross) .overflow
  rejectIf (newTotal < 0) .insufficientReserve
  let s ← burn env user split.gross s
  let (s, _) ← (recipients.zip split.nets).foldlM (payOne house env underlying) (s, total)
  let s ← payFee house env underlying house split.fee s
  return { s with totalWrapped := some newTotal }

def checkAmount (amount : ℤ) (s : State) : Result WrappedTokenError Unit := do
  rejectIf (amount ≤ 0) .invalidAmount
  rejectIf (∃ min ∈ s.minAmount, amount < min) .amountTooLow

def checkOracle (newTotal : ℤ) (s : State) : Result WrappedTokenError Unit :=
  match s.porOracle with
  | none => return ()
  | some oracle => do
    let oracleReserve ← HostInvocation.unwrap (env.getReserve oracle)
    rejectIf (oracleReserve < newTotal) .insufficientReserve

/-- Mints what arrived. -/
def wrap (user : Address) (amount : ℤ) (s : State) : Result WrappedTokenError State := do
  rejectIf s.admin.isNone .notInitialized
  requireNotPaused s
  checkAmount amount s
  requireAuth env.toContext user
  let (_, underlying) ← loadTokens s
  let balanceBefore := s.reserve
  let s ← callTransfer house env ⟨.deposit, underlying, user, house, amount⟩ s
  let actualReceived ← okOr (checkedSub s.reserve balanceBefore) .invalidAmount
  rejectIf (actualReceived ≤ 0) .invalidAmount
  let s ← countWrapped .invalidAmount user actualReceived s
  let newTotal ← okOr (checkedAdd (s.totalWrapped.getD 0) actualReceived) .invalidAmount
  checkOracle env newTotal s
  mint user actualReceived { s with totalWrapped := some newTotal }

/-- What a user unwraps no longer counts against its cap. -/
def freeQuota (user : Address) (amount : ℤ) (s : State) : State :=
  if s.maxWrapPerAddress.isSome then { s with
    wrappedByAddress := s.wrappedByAddress.insert user
      (saturatingSub (entry s.wrappedByAddress user) amount) }
  else s

def unwrap (user : Address) (amount : ℤ) (s : State) : Result WrappedTokenError State := do
  rejectIf s.admin.isNone .notInitialized
  requireNotPaused s
  checkAmount amount s
  requireAuth env.toContext user
  let s ← enforceUnwrapRateLimit env amount s
  let (_, underlying) ← loadTokens s
  let total := s.totalWrapped.getD 0
  rejectIf (total < amount) .invalidAmount
  let newTotal ← okOr (checkedSub total amount) .invalidAmount
  let s := freeQuota user amount s
  rejectIf (s.reserve < amount) .insufficientReserve
  let s ← burn env user amount { s with totalWrapped := some newTotal }
  callTransfer house env ⟨.payout, underlying, house, user, amount⟩ s

def initializeWrapper (admin wrappedToken underlyingToken : Address)
    (maxWrapPerAddress : Option ℤ) (wrapFeeBps unwrapFeeBps : Option ℕ)
    (feeRecipient : Option Address) (minAmount : Option ℤ) (s : State) :
    Result WrappedTokenError State := do
  rejectIf s.admin.isSome .alreadyInitialized
  requireAuth env.toContext admin
  let wrapFee := wrapFeeBps.getD 0
  let unwrapFee := unwrapFeeBps.getD 0
  rejectIf (bpsDenominator < wrapFee ∨ bpsDenominator < unwrapFee) .invalidFee
  rejectIf ((0 < wrapFee ∨ 0 < unwrapFee) ∧ feeRecipient.isNone) .invalidFee
  rejectIf (∃ cap ∈ maxWrapPerAddress, cap ≤ 0) .invalidAmount
  rejectIf (∃ min ∈ minAmount, min ≤ 0) .invalidAmount
  return { s with
    admin := some admin, wrappedToken := some wrappedToken, underlyingToken := some underlyingToken,
    totalWrapped := some 0,
    wrapFeeBps := if 0 < wrapFee then some wrapFee else s.wrapFeeBps,
    unwrapFeeBps := if 0 < unwrapFee then some unwrapFee else s.unwrapFeeBps,
    feeRecipient := feeRecipient.or s.feeRecipient,
    maxWrapPerAddress := maxWrapPerAddress.or s.maxWrapPerAddress,
    minAmount := minAmount.or s.minAmount }

/-- The guards shared by what only the administrator may do. -/
def asAdmin (s : State) : Result WrappedTokenError Unit := do
  let admin ← okOr s.admin .notInitialized
  requireAuth env.toContext admin

def setMinAmount (minAmount : Option ℤ) (s : State) : Result WrappedTokenError State := do
  asAdmin env s
  rejectIf (∃ min ∈ minAmount, min ≤ 0) .invalidAmount
  return { s with minAmount := minAmount }

def setUnwrapRateLimit (maxUnwrapPerWindow : ℤ) (windowLedgers : ℕ) (s : State) :
    Result WrappedTokenError State := do
  asAdmin env s
  rejectIf (maxUnwrapPerWindow ≤ 0 ∨ windowLedgers = 0) .invalidAmount
  return { s with
    unwrapRateLimit := some maxUnwrapPerWindow, unwrapRateWindow := some windowLedgers }

def setPorOracle (oracle : Option Address) (s : State) : Result WrappedTokenError State := do
  asAdmin env s
  return { s with porOracle := oracle }

def setUnwrapRateLimitPaused (paused : Bool) (s : State) : Result WrappedTokenError State := do
  asAdmin env s
  return { s with unwrapRateLimitPaused := some paused }

def pause (s : State) : Result WrappedTokenError State := do
  asAdmin env s
  return { s with wrapPaused := some true, unwrapPaused := some true }

def unpause (s : State) : Result WrappedTokenError State := do
  asAdmin env s
  return { s with wrapPaused := some false, unwrapPaused := some false, paused := none }

def setWrapPaused (paused : Bool) (s : State) : Result WrappedTokenError State := do
  asAdmin env s
  return { s with wrapPaused := some paused }

def setUnwrapPaused (paused : Bool) (s : State) : Result WrappedTokenError State := do
  asAdmin env s
  return { s with unwrapPaused := some paused }

end Entrypoints

inductive SetupCall where
  | initializeWrapper (admin wrappedToken underlyingToken : Address)
      (maxWrapPerAddress : Option ℤ) (wrapFeeBps unwrapFeeBps : Option ℕ)
      (feeRecipient : Option Address) (minAmount : Option ℤ)
  | setMinAmount (minAmount : Option ℤ)
  | setUnwrapRateLimit (maxUnwrapPerWindow : ℤ) (windowLedgers : ℕ)
  | setPorOracle (oracle : Option Address)
  | setUnwrapRateLimitPaused (paused : Bool)

/-- What moves tokens when everything is done in batches, holders of wrapped tokens included. -/
inductive BatchCall where
  | doWrap (user : Address) (recipients : List (Address × ℤ))
  | doUnwrap (user : Address) (recipients : List (Address × ℤ))
  | transfer (source target : Address) (amount : ℤ)
  | burn (user : Address) (amount : ℤ)
  | pause
  | unpause
  | setWrapPaused (paused : Bool)
  | setUnwrapPaused (paused : Bool)

/-- The four entry points that wrap and unwrap. -/
inductive MixedCall where
  | wrap (user : Address) (amount : ℤ)
  | wrapBatch (user : Address) (recipients : List (Address × ℤ))
  | unwrap (user : Address) (amount : ℤ)
  | unwrapBatch (user : Address) (recipients : List (Address × ℤ))

/-- A call on the contract at `house`, which signs nothing itself. -/
structure Invocation (house : Address) (κ : Type) extends Env where
  call : κ
  outside : house ∉ auths

variable {house : Address}

def execSetup (i : Invocation house SetupCall) (s : State) : Result WrappedTokenError State :=
  let env := i.toEnv
  match i.call with
  | .initializeWrapper admin wrappedToken underlyingToken maxWrapPerAddress wrapFeeBps unwrapFeeBps
      feeRecipient minAmount =>
    initializeWrapper env admin wrappedToken underlyingToken maxWrapPerAddress wrapFeeBps
      unwrapFeeBps feeRecipient minAmount s
  | .setMinAmount minAmount => setMinAmount env minAmount s
  | .setUnwrapRateLimit maxUnwrapPerWindow windowLedgers =>
    setUnwrapRateLimit env maxUnwrapPerWindow windowLedgers s
  | .setPorOracle oracle => setPorOracle env oracle s
  | .setUnwrapRateLimitPaused paused => setUnwrapRateLimitPaused env paused s

def setUp (s : State) (is : List (Invocation house SetupCall)) : State :=
  HostRuns.run execSetup s is

def execBatch (i : Invocation house BatchCall) (s : State) : Result WrappedTokenError State :=
  let env := i.toEnv
  match i.call with
  | .doWrap user recipients => doWrap house env user recipients s
  | .doUnwrap user recipients => doUnwrap house env user recipients s
  | .transfer source target amount => transfer env source target amount s
  | .burn user amount => burn env user amount s
  | .pause => pause env s
  | .unpause => unpause env s
  | .setWrapPaused paused => setWrapPaused env paused s
  | .setUnwrapPaused paused => setUnwrapPaused env paused s

def runBatches (s : State) (is : List (Invocation house BatchCall)) : State :=
  HostRuns.run execBatch s is

/-- Single amounts go through the limits, batches through the other version. -/
def execMixed (i : Invocation house MixedCall) (s : State) : Result WrappedTokenError State :=
  let env := i.toEnv
  match i.call with
  | .wrap user amount => wrap house env user amount s
  | .wrapBatch user recipients => doWrap house env user recipients s
  | .unwrap user amount => unwrap house env user amount s
  | .unwrapBatch user recipients => doUnwrap house env user recipients s

def runMixed (s : State) (is : List (Invocation house MixedCall)) : State :=
  HostRuns.run execMixed s is

end SorobanKit.WrappedToken
