import Mathlib.Algebra.Order.Group.Abs
import Mathlib.Algebra.Order.Group.Int
import Mathlib.Data.Finmap
import SorobanKit.HostInteger
import SorobanKit.HostInvocation
import SorobanKit.HostRuns

set_option autoImplicit false

/-!
# The price oracle

The feeds of single assets, which the admin updates, and the circuit breaker on them. The feed with
publishers and their bonds is kept under other keys and left out, and so are events, TTL bumps and
queries. An update can write before it fails, so it returns what it wrote beside its outcome.
-/
namespace SorobanKit.Oracle
open HostInteger HostInvocation

inductive OracleError where
  | alreadyInitialized
  | notInitialized
  | invalidStalenessThreshold
  | invalidPrice
  | priceDeviationTooHigh
  | feedPaused
  | invalidDeviationThreshold
  deriving DecidableEq, Repr

abbrev Symbol := String

structure PriceObservation where
  price : ℤ
  timestamp : ℕ
  deriving DecidableEq, Repr

/-- `assetPrice` has the ledger of the update next to the price. -/
structure State where
  admin : Option Address := none
  stalenessThreshold : Option ℕ := none
  maxDeviationBps : Option ℕ := none
  assetPrice : Finmap (fun _ : Symbol => ℤ × ℕ) := ∅
  assetDecimals : Finmap (fun _ : Symbol => ℕ) := ∅
  assetDescription : Finmap (fun _ : Symbol => String) := ∅
  assetHistory : Finmap (fun _ : Symbol => List PriceObservation) := ∅
  feedPaused : Finmap (fun _ : Symbol => Bool) := ∅

structure Env extends Context where
  timestamp : ℕ

/-- `MAX_HISTORY` -/
def maxHistory : ℕ := 30

def pushAssetHistory (asset : Symbol) (price : ℤ) (timestamp : ℕ) (s : State) : State :=
  let history := (s.assetHistory.lookup asset).getD [] ++ [⟨price, timestamp⟩]
  { s with assetHistory := s.assetHistory.insert asset (history.drop (history.length - maxHistory)) }

/-- Prices are positive when they are compared, so `abs` does not overflow. -/
def exceedsDeviation (previous next : ℤ) (maxDeviationBps : ℕ) : Bool :=
  if maxDeviationBps = 0 ∨ previous ≤ 0 then false
  else
    let difference := |saturatingSub next previous|
    saturatingMul previous maxDeviationBps < saturatingMul difference 10000

section Entrypoints
variable (env : Env)

def initializeOracle (admin : Address) (stalenessThreshold : ℕ) (s : State) :
    Result OracleError State := do
  rejectIf s.admin.isSome .alreadyInitialized
  rejectIf (stalenessThreshold = 0) .invalidStalenessThreshold
  requireAuth env.toContext admin
  return { s with admin := some admin, stalenessThreshold := some stalenessThreshold }

def requireAdmin (s : State) : Result OracleError Unit := do
  let admin ← okOr s.admin .notInitialized
  requireAuth env.toContext admin

def feedPaused (asset : Symbol) (s : State) : Bool := (s.feedPaused.lookup asset).getD false

/-- The guards in front of the breaker. -/
def checkUpdate (asset : Symbol) (price : ℤ) (s : State) : Result OracleError Unit := do
  requireAdmin env s
  rejectIf (price ≤ 0) .invalidPrice
  rejectIf (feedPaused asset s) .feedPaused

/-- The move from the stored price of the asset, if there is one. -/
def tripsBreaker (asset : Symbol) (price : ℤ) (s : State) : Bool :=
  match s.assetPrice.lookup asset with
  | some (previous, _) => exceedsDeviation previous price (s.maxDeviationBps.getD 0)
  | none => false

def storeAssetPrice (asset : Symbol) (price : ℤ) (decimals : ℕ) (s : State) : State :=
  pushAssetHistory asset price env.timestamp { s with
    assetPrice := s.assetPrice.insert asset (price, env.sequence)
    assetDecimals := s.assetDecimals.insert asset decimals }

def updateAssetPrice (asset : Symbol) (price : ℤ) (decimals : ℕ) (s : State) :
    State × Result OracleError Unit :=
  match checkUpdate env asset price s with
  | .error e => (s, .error e)
  | .ok () =>
    if tripsBreaker asset price s then
      ({ s with feedPaused := s.feedPaused.insert asset true }, .error (.error .priceDeviationTooHigh))
    else (storeAssetPrice env asset price decimals s, .ok ())

def updatePriceFor (asset : Symbol) (price : ℤ) (s : State) : State × Result OracleError Unit :=
  updateAssetPrice env asset price ((s.assetDecimals.lookup asset).getD 0) s

def configureAssetFeed (asset : Symbol) (decimals : ℕ) (description : String) (s : State) :
    Result OracleError State := do
  requireAdmin env s
  return { s with
    assetDecimals := s.assetDecimals.insert asset decimals
    assetDescription := s.assetDescription.insert asset description }

def setMaxDeviationBps (maxDeviationBps : ℕ) (s : State) : Result OracleError State := do
  requireAdmin env s
  rejectIf (10000 < maxDeviationBps) .invalidDeviationThreshold
  return { s with maxDeviationBps := some maxDeviationBps }

def unpauseFeed (asset : Symbol) (s : State) : Result OracleError State := do
  requireAdmin env s
  return { s with feedPaused := s.feedPaused.insert asset false }

end Entrypoints

inductive Call where
  | initializeOracle (admin : Address) (stalenessThreshold : ℕ)
  | configureAssetFeed (asset : Symbol) (decimals : ℕ) (description : String)
  | updateAssetPrice (asset : Symbol) (price : I128) (decimals : ℕ)
  | updatePriceFor (asset : Symbol) (price : I128)
  | setMaxDeviationBps (maxDeviationBps : ℕ)
  | unpauseFeed (asset : Symbol)

structure Invocation extends Env where
  call : Call

def exec (i : Invocation) (s : State) : Result OracleError State :=
  match i.call with
  | .initializeOracle admin stalenessThreshold =>
    initializeOracle i.toEnv admin stalenessThreshold s
  | .configureAssetFeed asset decimals description =>
    configureAssetFeed i.toEnv asset decimals description s
  | .updateAssetPrice asset price decimals =>
    commit (updateAssetPrice i.toEnv asset price.val decimals s)
  | .updatePriceFor asset price => commit (updatePriceFor i.toEnv asset price.val s)
  | .setMaxDeviationBps maxDeviationBps => setMaxDeviationBps i.toEnv maxDeviationBps s
  | .unpauseFeed asset => unpauseFeed i.toEnv asset s

def attempts (is : List Invocation) : List (HostRuns.Attempt State Invocation (Failure OracleError)) :=
  HostRuns.attempts exec {} is

end SorobanKit.Oracle
