import SorobanKit.HostBalances
import SorobanKit.HostInteger
import SorobanKit.HostInvocation
import SorobanKit.HostRuns
import SorobanKit.HostTransfers

set_option autoImplicit false

/-!
# Recurring payments

A provider charges its subscribers once an interval, each for every plan it subscribed to. The
source merges several versions; this is the one with a record for every subscriber and plan, with
the prepayment that `subscribe` takes and `cancel` pays back. Metering is left out beyond the fields
that a subscription starts with, and so are events and queries. Of a TTL bump only the trap is kept.
-/
namespace SorobanKit.Subscription
open HostBalances HostInteger HostInvocation HostTransfers

inductive SubscriptionError where
  | alreadyInitialized
  | notInitialized
  | notAuthorized
  | invalidAmount
  | invalidInterval
  | alreadySubscribed
  | notSubscribed
  | subscriptionInactive
  | intervalNotElapsed
  | insufficientAllowance
  | planAlreadyExists
  | planNotFound
  | planInactive
  | invalidDiscount
  | subscriptionSuspended
  | paymentOverdue
  | arithmeticOverflow
  deriving DecidableEq, Repr

abbrev Symbol := String

structure Plan where
  planId : Symbol
  amount : ℤ
  intervalLedgers : ℕ
  unitPrice : ℤ
  prepayDiscountBps : ℕ
  active : Bool
  deriving DecidableEq, Repr

structure SubscriptionInfo where
  planId : Symbol
  amount : ℤ
  intervalLedgers : ℕ
  unitPrice : ℤ
  usageUnits : ℕ
  prepaidIntervalsRemaining : ℕ
  prepaidBalance : ℤ
  trialLedgers : ℕ
  trialCompleted : Bool
  lastChargedLedger : ℕ
  active : Bool
  suspended : Bool
  failedChargesCount : ℕ
  delinquentSinceLedger : Option ℕ
  deriving DecidableEq, Repr

inductive ChargeOutcome where
  | charged
  | trialCompleted
  | paymentFailed
  | suspended
  | skipped
  deriving DecidableEq, Repr

/-- A subscriber and a plan. -/
abbrev Pair := Address × Symbol

inductive Purpose where
  | charge (planId : Symbol)
  | prepay (planId : Symbol)
  | proration (planId : Symbol)
  | refund (planId : Symbol)
  deriving DecidableEq, Repr

/-- What was agreed at a subscription. -/
structure Terms where
  amount : ℤ
  intervalLedgers : ℕ
  trialLedgers : ℕ
  deriving DecidableEq, Repr

inductive Act where
  | graceSet (gracePeriodLedgers : ℕ)
  | subscribed (pair : Pair) (terms : Terms)
  | charged (pair : Pair) (amount : ℤ)
  | failed (pair : Pair)
  | suspended (pair : Pair)
  | cancelled (pair : Pair)
  deriving DecidableEq, Repr

/-- An act and the ledger it was done in. -/
structure Note where
  ledger : ℕ
  act : Act
  deriving DecidableEq, Repr

/-- `journal` is no part of the storage: it keeps what was done, in order. -/
structure State where
  provider : Option Address := none
  token : Option Address := none
  gracePeriod : Option ℕ := none
  plans : Finmap (fun _ : Symbol => Plan) := ∅
  subscriptions : Finmap (fun _ : Pair => SubscriptionInfo) := ∅
  transfers : List (Transfer Purpose) := []
  journal : List Note := []

def State.empty : State := {}

structure Env extends Context where
  tokens : TokenReplies Purpose

/-- `DEFAULT_GRACE_PERIOD_LEDGERS` -/
def defaultGracePeriodLedgers : ℕ := 120960

def gracePeriod (s : State) : ℕ := s.gracePeriod.getD defaultGracePeriodLedgers

def bpsDenominator : ℕ := 10000

/-- The cost of prepaying, less the discount. -/
def prepayCost (amount : ℤ) (intervals discountBps : ℕ) : Result SubscriptionError ℤ :=
  okOr ((checkedMul amount intervals).bind fun gross =>
    (checkedMul gross (saturatingSubU32 bpsDenominator discountBps)).bind fun scaled =>
      checked (scaled.tdiv bpsDenominator)) .arithmeticOverflow

/-- `LEDGER_BUMP_AMOUNT` -/
def ledgerBumpAmount : ℕ := 518400

/-- Its `bump_subscription` traps in the same ledgers as `bump_instance`, with which every entry
    point ends. -/
def saveSubscription (subscriber : Address) (info : SubscriptionInfo) (s : State) : State :=
  { s with subscriptions := s.subscriptions.insert (subscriber, info.planId) info }

section Entrypoints
variable (house : Address) (env : Env)

/-- The host traps when a lifetime would end past the largest ledger. -/
def bumpInstance : Result SubscriptionError Unit :=
  trapUnless (env.sequence + ledgerBumpAmount ≤ u32Max)

def note (act : Act) (s : State) : State :=
  { s with journal := s.journal ++ [⟨env.sequence, act⟩] }

def callTransfer (x : Transfer Purpose) (s : State) : Result SubscriptionError State :=
  recordTransfer env.tokens s.transfers x fun log => { s with transfers := log }

/-- `if amount > 0 { transfer }` -/
def callIfPositive (x : Transfer Purpose) (s : State) : Result SubscriptionError State :=
  if 0 < x.amount then callTransfer env x s else return s

/-- What a transfer that failed leaves in the record. -/
def recordFailure (info : SubscriptionInfo) : SubscriptionInfo := { info with
  failedChargesCount := saturatingAddU32 info.failedChargesCount 1
  delinquentSinceLedger := some (info.delinquentSinceLedger.getD env.sequence) }

/-- A failed transfer is an outcome, so that what it left in the record is kept. -/
def chargeOne (provider token : Address) (gracePeriodLedgers : ℕ) (pair : Pair) (s : State) :
    Result SubscriptionError (ChargeOutcome × ℤ × State) := do
  let info ← okOr (s.subscriptions.lookup pair) .notSubscribed
  rejectIf info.suspended .subscriptionSuspended
  rejectIf (info.active = false) .subscriptionInactive
  if info.trialCompleted = false then do
    rejectIf (env.sequence < saturatingAddU32 info.lastChargedLedger info.trialLedgers)
      .intervalNotElapsed
    let info := { info with trialCompleted := true, lastChargedLedger := env.sequence }
    return (.trialCompleted, 0, saveSubscription pair.1 info s)
  else do
    rejectIf (env.sequence < saturatingAddU32 info.lastChargedLedger info.intervalLedgers)
      .intervalNotElapsed
    let payment : Transfer Purpose := ⟨.charge pair.2, token, pair.1, provider, info.amount⟩
    if env.tokens.accepts s.transfers payment then
      let info := { info with
        lastChargedLedger := env.sequence, failedChargesCount := 0, delinquentSinceLedger := none }
      return (.charged, info.amount, note env (.charged pair info.amount)
        (saveSubscription pair.1 info { s with transfers := s.transfers ++ [payment] }))
    else
      let info := recordFailure env info
      let delinquentSince := info.delinquentSinceLedger.getD env.sequence
      if saturatingAddU32 delinquentSince gracePeriodLedgers ≤ env.sequence then
        let info := { info with active := false, suspended := true }
        return (.suspended, 0, note env (.suspended pair) (saveSubscription pair.1 info s))
      else return (.paymentFailed, 0, note env (.failed pair) (saveSubscription pair.1 info s))

def initializeSubscription (provider token : Address) (s : State) :
    Result SubscriptionError State := do
  rejectIf s.provider.isSome .alreadyInitialized
  requireAuth env.toContext provider
  trapUnless (env.tokens.responds token)
  return note env (.graceSet defaultGracePeriodLedgers) { s with
    provider := some provider, token := some token, gracePeriod := some defaultGracePeriodLedgers }

def setGracePeriod (gracePeriodLedgers : ℕ) (s : State) : Result SubscriptionError State := do
  let provider ← okOr s.provider .notInitialized
  requireAuth env.toContext provider
  return note env (.graceSet gracePeriodLedgers) { s with gracePeriod := some gracePeriodLedgers }

def registerPlan (planId : Symbol) (amount : ℤ) (intervalLedgers : ℕ) (unitPrice : ℤ)
    (prepayDiscountBps : ℕ) (s : State) : Result SubscriptionError State := do
  let provider ← okOr s.provider .notInitialized
  requireAuth env.toContext provider
  rejectIf (amount ≤ 0 ∨ unitPrice < 0) .invalidAmount
  rejectIf (intervalLedgers = 0) .invalidInterval
  rejectIf (bpsDenominator < prepayDiscountBps) .invalidDiscount
  rejectIf (planId ∈ s.plans) .planAlreadyExists
  let plan : Plan :=
    { planId, amount, intervalLedgers, unitPrice, prepayDiscountBps, active := true }
  return { s with plans := s.plans.insert planId plan }

def setPlanActive (planId : Symbol) (active : Bool) (s : State) : Result SubscriptionError State := do
  let provider ← okOr s.provider .notInitialized
  requireAuth env.toContext provider
  let plan ← okOr (s.plans.lookup planId) .planNotFound
  return { s with plans := s.plans.insert planId { plan with active := active } }

def loadActivePlan (planId : Symbol) (s : State) : Result SubscriptionError Plan := do
  let plan ← okOr (s.plans.lookup planId) .planNotFound
  rejectIf (plan.active = false) .planInactive
  return plan

/-- Only a record that is no longer active can be replaced. -/
def requireFree (pair : Pair) (s : State) : Result SubscriptionError Unit :=
  rejectIf (∃ existing ∈ s.subscriptions.lookup pair, existing.active) .alreadySubscribed

def subscribe (subscriber : Address) (planId : Symbol) (trialLedgers prepayIntervals : Option ℕ)
    (s : State) : Result SubscriptionError State := do
  let token ← okOr s.token .notInitialized
  let plan ← loadActivePlan planId s
  requireAuth env.toContext subscriber
  requireFree (subscriber, planId) s
  let trial := trialLedgers.getD 0
  let intervals := prepayIntervals.getD 0
  let prepaidBalance ← prepayCost plan.amount intervals plan.prepayDiscountBps
  let info : SubscriptionInfo := {
    planId, amount := plan.amount, intervalLedgers := plan.intervalLedgers
    unitPrice := plan.unitPrice, usageUnits := 0
    prepaidIntervalsRemaining := intervals, prepaidBalance, trialLedgers := trial
    trialCompleted := trial = 0, lastChargedLedger := env.sequence, active := true
    suspended := false, failedChargesCount := 0, delinquentSinceLedger := none }
  let s := note env (.subscribed (subscriber, planId) ⟨plan.amount, plan.intervalLedgers, trial⟩)
    (saveSubscription subscriber info s)
  callIfPositive env ⟨.prepay planId, token, subscriber, house, prepaidBalance⟩ s

def loadParties (s : State) : Result SubscriptionError (Address × Address) := do
  let provider ← okOr s.provider .notInitialized
  let token ← okOr s.token .notInitialized
  return (provider, token)

def charge (subscriber : Address) (planId : Symbol) (s : State) :
    Result SubscriptionError (ChargeOutcome × State) := do
  let (provider, token) ← loadParties s
  requireAuth env.toContext provider
  let (outcome, _, s) ← chargeOne env provider token (gracePeriod s) (subscriber, planId) s
  return (outcome, s)

/-- An entry of a batch that cannot be charged is skipped. -/
def chargeOrSkip (provider token : Address) (gracePeriodLedgers : ℕ) (pair : Pair) (s : State) :
    ChargeOutcome × ℤ × State :=
  match chargeOne env provider token gracePeriodLedgers pair s with
  | .ok result => result
  | .error _ => (.skipped, 0, s)

structure BatchChargeResult where
  charged : ℕ := 0
  trialsCompleted : ℕ := 0
  failed : ℕ := 0
  suspended : ℕ := 0
  skipped : ℕ := 0
  totalCharged : ℤ := 0
  outcomes : List ChargeOutcome := []
  deriving DecidableEq, Repr

def BatchChargeResult.count (result : BatchChargeResult) (outcome : ChargeOutcome) (amount : ℤ) :
    BatchChargeResult :=
  let result := { result with outcomes := result.outcomes ++ [outcome] }
  match outcome with
  | .charged => { result with
      charged := saturatingAddU32 result.charged 1
      totalCharged := saturatingAdd result.totalCharged amount }
  | .trialCompleted => { result with trialsCompleted := saturatingAddU32 result.trialsCompleted 1 }
  | .paymentFailed => { result with failed := saturatingAddU32 result.failed 1 }
  | .suspended => { result with suspended := saturatingAddU32 result.suspended 1 }
  | .skipped => { result with skipped := saturatingAddU32 result.skipped 1 }

def chargeEntry (provider token : Address) (gracePeriodLedgers : ℕ)
    (acc : BatchChargeResult × State) (pair : Pair) : BatchChargeResult × State :=
  let (outcome, amount, s) := chargeOrSkip env provider token gracePeriodLedgers pair acc.2
  (acc.1.count outcome amount, s)

def chargeBatch (subscriptions : List Pair) (s : State) :
    Result SubscriptionError (BatchChargeResult × State) := do
  let (provider, token) ← loadParties s
  requireAuth env.toContext provider
  return subscriptions.foldl (chargeEntry env provider token (gracePeriod s)) ({}, s)

structure Proration where
  credit : ℤ
  charge : ℤ
  lastChargedLedger : ℕ
  deriving DecidableEq, Repr

/-- `u32::try_from(v).ok()` -/
def toU32 (v : ℤ) : Option ℕ := if 0 ≤ v ∧ v ≤ u32Max then some v.toNat else none

def prorate (old : SubscriptionInfo) (newPlan : Plan) (currentLedger : ℕ) :
    Result SubscriptionError Proration := do
  rejectIf old.delinquentSinceLedger.isSome .paymentOverdue
  let nextDue ← okOr (checkedAddU32 old.lastChargedLedger old.intervalLedgers) .arithmeticOverflow
  let remaining := saturatingSubU32 nextDue currentLedger
  rejectIf (remaining = 0) .paymentOverdue
  let credit ← okOr ((checkedMul old.amount remaining).bind fun v =>
    if old.intervalLedgers = 0 then none else checked (v.tdiv old.intervalLedgers)) .arithmeticOverflow
  if credit < newPlan.amount then do
    let charge ← okOr (checkedSub newPlan.amount credit) .arithmeticOverflow
    return ⟨credit, charge, currentLedger⟩
  else do
    let creditLedgers ← okOr ((checkedMul credit newPlan.intervalLedgers).bind fun v =>
      (if newPlan.amount = 0 then none else checked (v.tdiv newPlan.amount)).bind toU32)
      .arithmeticOverflow
    let lastChargedLedger ← okOr (checkedAddU32 currentLedger
      (saturatingSubU32 creditLedgers newPlan.intervalLedgers)) .arithmeticOverflow
    return ⟨credit, 0, lastChargedLedger⟩

/-- A subscription in its trial has paid nothing and carries the trial over. -/
def prorateOrCarry (old : SubscriptionInfo) (newPlan : Plan) (currentLedger : ℕ) :
    Result SubscriptionError Proration :=
  if old.trialCompleted then prorate old newPlan currentLedger
  else return ⟨0, 0, old.lastChargedLedger⟩

/-- The merged source leaves the metering and prepayment fields of the new record out; here they
    are those of a subscription that prepaid nothing. -/
def changePlan (subscriber : Address) (oldPlanId newPlanId : Symbol) (s : State) :
    Result SubscriptionError State := do
  let (provider, token) ← loadParties s
  requireAuth env.toContext subscriber
  let old ← okOr (s.subscriptions.lookup (subscriber, oldPlanId)) .notSubscribed
  rejectIf old.suspended .subscriptionSuspended
  rejectIf (old.active = false) .subscriptionInactive
  let newPlan ← loadActivePlan newPlanId s
  requireFree (subscriber, newPlanId) s
  let proration ← prorateOrCarry old newPlan env.sequence
  let s ← callIfPositive env
    ⟨.proration newPlanId, token, subscriber, provider, proration.charge⟩ s
  let newInfo : SubscriptionInfo := {
    planId := newPlanId, amount := newPlan.amount, intervalLedgers := newPlan.intervalLedgers
    unitPrice := newPlan.unitPrice, usageUnits := 0
    prepaidIntervalsRemaining := 0, prepaidBalance := 0, trialLedgers := old.trialLedgers
    trialCompleted := old.trialCompleted, lastChargedLedger := proration.lastChargedLedger
    active := true, suspended := false, failedChargesCount := 0, delinquentSinceLedger := none }
  return saveSubscription subscriber newInfo (saveSubscription subscriber { old with active := false } s)

def cancel (subscriber : Address) (planId : Symbol) (s : State) : Result SubscriptionError State := do
  let (_, token) ← loadParties s
  requireAuth env.toContext subscriber
  let info ← okOr (s.subscriptions.lookup (subscriber, planId)) .notSubscribed
  rejectIf (info.active = false) .subscriptionInactive
  let refund := info.prepaidBalance
  let info := { info with
    active := false, usageUnits := 0, prepaidBalance := 0, prepaidIntervalsRemaining := 0 }
  let s := note env (.cancelled (subscriber, planId))
    { s with subscriptions := s.subscriptions.insert (subscriber, planId) info }
  callIfPositive env ⟨.refund planId, token, house, subscriber, refund⟩ s

end Entrypoints

inductive BillingCall where
  | initializeSubscription (provider token : Address)
  | setGracePeriod (gracePeriodLedgers : ℕ)
  | registerPlan (planId : Symbol) (amount : ℤ) (intervalLedgers : ℕ) (unitPrice : ℤ)
      (prepayDiscountBps : ℕ)
  | setPlanActive (planId : Symbol) (active : Bool)
  | subscribe (subscriber : Address) (planId : Symbol) (trialLedgers prepayIntervals : Option ℕ)
  | charge (subscriber : Address) (planId : Symbol)
  | chargeBatch (subscriptions : List Pair)
  | cancel (subscriber : Address) (planId : Symbol)

inductive EscrowCall where
  | billing (call : BillingCall)
  | changePlan (subscriber : Address) (oldPlanId newPlanId : Symbol)

/-- A call on the contract at `house`, which signs nothing itself. -/
structure Invocation (house : Address) (κ : Type) extends Env where
  call : κ
  outside : house ∉ auths

variable {house : Address}

def dispatch (house : Address) (env : Env) (call : BillingCall) (s : State) :
    Result SubscriptionError State :=
  match call with
  | .initializeSubscription provider token => initializeSubscription env provider token s
  | .setGracePeriod gracePeriodLedgers => setGracePeriod env gracePeriodLedgers s
  | .registerPlan planId amount intervalLedgers unitPrice prepayDiscountBps =>
    registerPlan env planId amount intervalLedgers unitPrice prepayDiscountBps s
  | .setPlanActive planId active => setPlanActive env planId active s
  | .subscribe subscriber planId trialLedgers prepayIntervals =>
    subscribe house env subscriber planId trialLedgers prepayIntervals s
  | .charge subscriber planId => Prod.snd <$> charge env subscriber planId s
  | .chargeBatch subscriptions => Prod.snd <$> chargeBatch env subscriptions s
  | .cancel subscriber planId => cancel house env subscriber planId s

def bumped (env : Env) (x : Result SubscriptionError State) : Result SubscriptionError State := do
  let s ← x
  bumpInstance env
  return s

def execCall (house : Address) (env : Env) (call : BillingCall) (s : State) :
    Result SubscriptionError State := bumped env (dispatch house env call s)

def execEscrow (i : Invocation house EscrowCall) (s : State) : Result SubscriptionError State :=
  match i.call with
  | .billing call => execCall house i.toEnv call s
  | .changePlan subscriber oldPlanId newPlanId =>
    bumped i.toEnv (changePlan i.toEnv subscriber oldPlanId newPlanId s)

def runEscrow (s : State) (is : List (Invocation house EscrowCall)) : State :=
  HostRuns.run execEscrow s is

end SorobanKit.Subscription
