import Mathlib.Data.Finset.Card
import Mathlib.Data.List.Dedup
import SorobanKit.HostSorting
import SorobanKit.OracleContract

set_option autoImplicit false

/-!
# The oracle's publishers

The feed that several publishers write. Everyone on the list of the admin has one submission at a
time, and the price is the median of those that are fresh. Each one is recorded in a history, too,
which keeps one observation of a timestamp. Bonds, events, TTL bumps and queries are left out.
-/
namespace SorobanKit.OraclePublishers
open HostInteger HostInvocation HostSorting
open Oracle (PriceObservation maxHistory)

/-- `OracleError`, as far as this feed returns it. -/
inductive FeedError where
  | alreadyInitialized
  | notInitialized
  | unauthorized
  | invalidStalenessThreshold
  | noPublisherData
  | submissionTooFrequent
  | invalidPrice
  | insufficientQuorum
  | insufficientHistory
  | invalidSmoothingFactor
  deriving DecidableEq, Repr

structure PublisherSubmission where
  price : I128
  timestamp : ℕ

/-- `price` and the two fields after it are those of the admin's own updates. -/
structure State where
  admin : Option Address := none
  stalenessThreshold : Option ℕ := none
  price : Option I128 := none
  updatedAt : Option ℕ := none
  updatedAtTimestamp : Option ℕ := none
  publishers : Option (List Address) := none
  minQuorum : Option ℕ := none
  submissions : Finmap (fun _ : Address => PublisherSubmission) := ∅
  lastSubmissionLedger : Finmap (fun _ : Address => ℕ) := ∅
  history : List PriceObservation := []

structure Env extends Context where
  timestamp : ℕ

/-- Sorts the values in place; only called with some. -/
def median (values : List ℤ) : ℤ :=
  let values := sortInPlace values
  let mid := values.length / 2
  if values.length % 2 = 0 then
    (saturatingAdd (values.getD (mid - 1) default) (values.getD mid default)).tdiv 2
  else values.getD mid default

/-- What replaces the last observation when there is another one of its timestamp. -/
def mergedPrice (last price : ℤ) : ℤ := (saturatingAdd last price).tdiv 2

def pushHistory (history : List PriceObservation) (price : ℤ) (timestamp : ℕ) :
    List PriceObservation :=
  match history.getLast? with
  | some last =>
    if last.timestamp = timestamp then
      history.set (history.length - 1) ⟨mergedPrice last.price price, timestamp⟩
    else
      let history := history ++ [⟨price, timestamp⟩]
      history.drop (history.length - maxHistory)
  | none => [⟨price, timestamp⟩]

section Entrypoints
variable (env : Env)

def initializeFeed (admin : Address) (stalenessThreshold : ℕ) (s : State) : Result FeedError State := do
  rejectIf s.admin.isSome .alreadyInitialized
  rejectIf (stalenessThreshold = 0) .invalidStalenessThreshold
  requireAuth env.toContext admin
  return { s with admin := some admin, stalenessThreshold := some stalenessThreshold }

/-- The threshold only feeds the events, but it has to be there. -/
def updatePrice (price : I128) (s : State) : Result FeedError State := do
  let admin ← okOr s.admin .notInitialized
  requireAuth env.toContext admin
  rejectIf (price.val ≤ 0) .invalidPrice
  rejectIf s.stalenessThreshold.isNone .notInitialized
  return { s with
    price := some price, updatedAt := some env.sequence, updatedAtTimestamp := some env.timestamp
    history := pushHistory s.history price.val env.timestamp }

/-- The guards of what only the admin may set, who is named by the call. -/
def asAdmin (admin : Address) (s : State) : Result FeedError Unit := do
  let storedAdmin ← okOr s.admin .notInitialized
  requireAuth env.toContext admin
  rejectIf (admin ≠ storedAdmin) .unauthorized

def setPublishers (admin : Address) (publishers : List Address) (s : State) :
    Result FeedError State := do
  asAdmin env admin s
  return { s with publishers := some publishers }

def setMinQuorum (admin : Address) (minQuorum : ℕ) (s : State) : Result FeedError State := do
  asAdmin env admin s
  rejectIf (minQuorum = 0) .invalidStalenessThreshold
  return { s with minQuorum := some minQuorum }

def submitPrice (publisher : Address) (price : I128) (s : State) : Result FeedError State := do
  requireAuth env.toContext publisher
  rejectIf (publisher ∉ s.publishers.getD []) .unauthorized
  rejectIf (∃ last ∈ s.lastSubmissionLedger.lookup publisher, env.sequence ≤ last)
    .submissionTooFrequent
  return { s with
    lastSubmissionLedger := s.lastSubmissionLedger.insert publisher env.sequence
    submissions := s.submissions.insert publisher ⟨price, env.timestamp⟩
    history := pushHistory s.history price.val env.timestamp }

/-- The price of a publisher's submission, if it is not too old. -/
def freshPrice (maxStalenessSeconds : ℕ) (s : State) (publisher : Address) : Option ℤ :=
  (s.submissions.lookup publisher).bind fun submission =>
    let age := env.timestamp - submission.timestamp
    if age ≤ maxStalenessSeconds then some submission.price.val else none

def getMedianPrice (maxStalenessSeconds : ℕ) (s : State) : Result FeedError ℤ := do
  let publishers ← okOr s.publishers .notInitialized
  let minQuorum := s.minQuorum.getD 1
  let prices := publishers.filterMap (freshPrice env maxStalenessSeconds s)
  rejectIf (prices = []) .noPublisherData
  rejectIf (prices.length < minQuorum) .insufficientQuorum
  return median prices

end Entrypoints

inductive Call where
  | initializeFeed (admin : Address) (stalenessThreshold : ℕ)
  | updatePrice (price : I128)
  | setPublishers (admin : Address) (publishers : List Address)
  | setMinQuorum (admin : Address) (minQuorum : ℕ)
  | submitPrice (publisher : Address) (price : I128)

structure Invocation extends Env where
  call : Call

def exec (i : Invocation) (s : State) : Result FeedError State :=
  match i.call with
  | .initializeFeed admin stalenessThreshold => initializeFeed i.toEnv admin stalenessThreshold s
  | .updatePrice price => updatePrice i.toEnv price s
  | .setPublishers admin publishers => setPublishers i.toEnv admin publishers s
  | .setMinQuorum admin minQuorum => setMinQuorum i.toEnv admin minQuorum s
  | .submitPrice publisher price => submitPrice i.toEnv publisher price s

def runFeed (s : State) (is : List Invocation) : State := HostRuns.run exec s is

end SorobanKit.OraclePublishers
