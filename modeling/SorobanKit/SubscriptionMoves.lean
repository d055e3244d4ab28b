import SorobanKit.SubscriptionContract

set_option autoImplicit false

/-!
# What a call does to the records

An attempt to charge that is not rejected has one of four outcomes, alone or in a batch. The other
calls write one record each, but for a change of plan, which writes two.
-/
namespace SorobanKit.Subscription
open HostBalances HostInteger HostInvocation HostTransfers

variable {house provider token subscriber : Address} {env : Env} {s t : State} {pair : Pair}
  {info : SubscriptionInfo} {gracePeriodLedgers : ℕ} {planId : Symbol}

theorem bumped_eq_ok {x : Result SubscriptionError State} :
    bumped env x = .ok t ↔ x = .ok t ∧ env.sequence + ledgerBumpAmount ≤ u32Max := by
  simp only [bumped, bumpInstance, bind_eq_ok, trapUnless_eq_ok, pure_eq_ok, exists_const]
  constructor
  · rintro ⟨_, hx, hledger, rfl⟩
    exact ⟨hx, hledger⟩
  · rintro ⟨hx, hledger⟩
    exact ⟨t, hx, hledger, rfl⟩

theorem saveSubscription_eq (h : info.planId = pair.2) : saveSubscription pair.1 info s =
    { s with subscriptions := s.subscriptions.insert pair info } := by
  rw [saveSubscription, h]

/-- The transfer that an attempt to charge asks for. -/
def paymentOf (provider token : Address) (pair : Pair) (info : SubscriptionInfo) : Transfer Purpose :=
  ⟨.charge pair.2, token, pair.1, provider, info.amount⟩

def markTrialCompleted (env : Env) (info : SubscriptionInfo) : SubscriptionInfo :=
  { info with trialCompleted := true, lastChargedLedger := env.sequence }

def markCharged (env : Env) (info : SubscriptionInfo) : SubscriptionInfo := { info with
  lastChargedLedger := env.sequence, failedChargesCount := 0, delinquentSinceLedger := none }

def markSuspended (env : Env) (info : SubscriptionInfo) : SubscriptionInfo :=
  { recordFailure env info with active := false, suspended := true }

/-- The ledger of the first failed attempt, if one fails now. -/
def delinquentSince (env : Env) (info : SubscriptionInfo) : ℕ :=
  info.delinquentSinceLedger.getD env.sequence

/-- What an attempt does, by its outcome. -/
inductive Attempt (env : Env) (provider token : Address) (gracePeriodLedgers : ℕ) (pair : Pair)
    (info : SubscriptionInfo) (s : State) : State → Prop where
  | trialCompleted (htrial : info.trialCompleted = false)
      (hdue : saturatingAddU32 info.lastChargedLedger info.trialLedgers ≤ env.sequence) :
      Attempt env provider token gracePeriodLedgers pair info s
        (saveSubscription pair.1 (markTrialCompleted env info) s)
  | charged (htrial : info.trialCompleted = true)
      (hdue : saturatingAddU32 info.lastChargedLedger info.intervalLedgers ≤ env.sequence)
      (hpays : env.tokens.accepts s.transfers (paymentOf provider token pair info) = true) :
      Attempt env provider token gracePeriodLedgers pair info s
        (note env (.charged pair info.amount) (saveSubscription pair.1 (markCharged env info)
          { s with transfers := s.transfers ++ [paymentOf provider token pair info] }))
  | suspended (htrial : info.trialCompleted = true)
      (hdue : saturatingAddU32 info.lastChargedLedger info.intervalLedgers ≤ env.sequence)
      (hpays : env.tokens.accepts s.transfers (paymentOf provider token pair info) = false)
      (hlate : saturatingAddU32 (delinquentSince env info) gracePeriodLedgers ≤ env.sequence) :
      Attempt env provider token gracePeriodLedgers pair info s
        (note env (.suspended pair) (saveSubscription pair.1 (markSuspended env info) s))
  | failed (htrial : info.trialCompleted = true)
      (hdue : saturatingAddU32 info.lastChargedLedger info.intervalLedgers ≤ env.sequence)
      (hpays : env.tokens.accepts s.transfers (paymentOf provider token pair info) = false)
      (hlate : env.sequence < saturatingAddU32 (delinquentSince env info) gracePeriodLedgers) :
      Attempt env provider token gracePeriodLedgers pair info s
        (note env (.failed pair) (saveSubscription pair.1 (recordFailure env info) s))

theorem chargeOne_ok {outcome : ChargeOutcome} {amount : ℤ}
    (h : chargeOne env provider token gracePeriodLedgers pair s = .ok (outcome, amount, t)) :
    ∃ info, s.subscriptions.lookup pair = some info ∧ info.active = true ∧
      Attempt env provider token gracePeriodLedgers pair info s t := by
  simp only [chargeOne, bind_eq_ok, okOr_eq_ok, rejectIf_eq_ok, Bool.not_eq_true,
    Bool.not_eq_false] at h
  obtain ⟨info, hlookup, _, _, _, hactive, h⟩ := h
  refine ⟨info, hlookup, hactive, ?_⟩
  rw [ite_eq_ok] at h
  rcases h with ⟨htrial, h⟩ | ⟨htrial, h⟩
  · simp only [bind_eq_ok, rejectIf_eq_ok, not_lt, pure_eq_ok, Prod.mk.injEq] at h
    obtain ⟨_, hdue, _, _, rfl⟩ := h
    exact .trialCompleted htrial hdue
  · rw [Bool.not_eq_false] at htrial
    simp only [bind_eq_ok, rejectIf_eq_ok, not_lt] at h
    obtain ⟨_, hdue, h⟩ := h
    rw [ite_eq_ok] at h
    rcases h with ⟨hpays, h⟩ | ⟨hpays, h⟩
    · simp only [pure_eq_ok, Prod.mk.injEq] at h
      obtain ⟨_, _, rfl⟩ := h
      exact .charged htrial hdue hpays
    · rw [Bool.not_eq_true] at hpays
      rw [ite_eq_ok] at h
      rcases h with ⟨hlate, h⟩ | ⟨hlate, h⟩
      · simp only [pure_eq_ok, Prod.mk.injEq] at h
        obtain ⟨_, _, rfl⟩ := h
        exact .suspended htrial hdue hpays hlate
      · simp only [pure_eq_ok, Prod.mk.injEq] at h
        obtain ⟨_, _, rfl⟩ := h
        exact .failed htrial hdue hpays (not_le.mp hlate)

/-- The state after one entry of a batch. -/
def attempt (env : Env) (provider token : Address) (gracePeriodLedgers : ℕ) (s : State)
    (pair : Pair) : State := (chargeOrSkip env provider token gracePeriodLedgers pair s).2.2

theorem attempt_cases (env : Env) (provider token : Address) (gracePeriodLedgers : ℕ) (s : State)
    (pair : Pair) : attempt env provider token gracePeriodLedgers s pair = s ∨
      ∃ info, s.subscriptions.lookup pair = some info ∧ info.active = true ∧
        Attempt env provider token gracePeriodLedgers pair info s
          (attempt env provider token gracePeriodLedgers s pair) := by
  unfold attempt chargeOrSkip
  cases hone : chargeOne env provider token gracePeriodLedgers pair s with
  | error e => exact .inl rfl
  | ok result => exact .inr (chargeOne_ok hone)

theorem chargeEntries_state (result : BatchChargeResult) (pairs : List Pair) (s : State) :
    (pairs.foldl (chargeEntry env provider token gracePeriodLedgers) (result, s)).2 =
      pairs.foldl (attempt env provider token gracePeriodLedgers) s := by
  induction pairs generalizing result s with
  | nil => rfl
  | cons pair rest ih => exact ih _ _

theorem loadParties_ok {parties : Address × Address} (h : loadParties s = .ok parties) :
    s.provider = some parties.1 ∧ s.token = some parties.2 := by
  simp only [loadParties, bind_eq_ok, okOr_eq_ok, pure_eq_ok] at h
  obtain ⟨_, hprovider, _, htoken, rfl⟩ := h
  exact ⟨hprovider, htoken⟩

theorem charge_ok (h : Prod.snd <$> charge env subscriber planId s = .ok t) :
    ∃ provider token info, s.provider = some provider ∧ s.token = some token ∧
      s.subscriptions.lookup (subscriber, planId) = some info ∧ info.active = true ∧
      Attempt env provider token (gracePeriod s) (subscriber, planId) info s t := by
  cases hcharge : charge env subscriber planId s with
  | error e =>
    rw [hcharge] at h
    cases h
  | ok result =>
    rw [hcharge] at h
    cases h
    simp only [charge, bind_eq_ok, pure_eq_ok] at hcharge
    obtain ⟨⟨provider, token⟩, hparties, _, _, ⟨outcome, amount, u⟩, hone, rfl⟩ := hcharge
    obtain ⟨hprovider, htoken⟩ := loadParties_ok hparties
    obtain ⟨info, hlookup, hactive, hattempt⟩ := chargeOne_ok hone
    exact ⟨provider, token, info, hprovider, htoken, hlookup, hactive, hattempt⟩

theorem chargeBatch_ok {pairs : List Pair} (h : Prod.snd <$> chargeBatch env pairs s = .ok t) :
    ∃ provider token, s.provider = some provider ∧ s.token = some token ∧
      t = pairs.foldl (attempt env provider token (gracePeriod s)) s := by
  cases hbatch : chargeBatch env pairs s with
  | error e =>
    rw [hbatch] at h
    cases h
  | ok result =>
    rw [hbatch] at h
    cases h
    simp only [chargeBatch, bind_eq_ok, pure_eq_ok] at hbatch
    obtain ⟨⟨provider, token⟩, hparties, _, _, rfl⟩ := hbatch
    obtain ⟨hprovider, htoken⟩ := loadParties_ok hparties
    exact ⟨provider, token, hprovider, htoken, chargeEntries_state _ _ _⟩

/-- The transfer that is made only of a positive amount. -/
def ifPositive (x : Transfer Purpose) : List (Transfer Purpose) := if 0 < x.amount then [x] else []

theorem callIfPositive_ok {x : Transfer Purpose}
    (h : callIfPositive env x s = .ok t) :
    t = { s with transfers := s.transfers ++ ifPositive x } := by
  unfold callIfPositive at h
  unfold ifPositive
  split at h
  · next hpos =>
    rw [if_pos hpos]
    exact recordTransfer_ok h
  · next hnot =>
    rw [pure_eq_ok] at h
    rw [← h, if_neg hnot, List.append_nil]

theorem prepayCost_nonneg {amount cost : ℤ} {intervals discountBps : ℕ} (hamount : 0 ≤ amount)
    (h : prepayCost amount intervals discountBps = .ok cost) :
    0 ≤ cost ∧ (intervals = 0 → cost = 0) := by
  simp only [prepayCost, okOr_eq_ok, Option.bind_eq_some_iff, checkedMul_eq_some,
    checked_eq_some] at h
  obtain ⟨_, ⟨_, rfl⟩, _, ⟨_, rfl⟩, _, rfl⟩ := h
  refine ⟨Int.tdiv_nonneg ?_ (by decide), fun hzero => by simp [hzero]⟩
  exact Int.mul_nonneg (Int.mul_nonneg hamount (Int.natCast_nonneg _)) (Int.natCast_nonneg _)

/-- The record of a new subscription. -/
def newSubscription (env : Env) (planId : Symbol) (plan : Plan) (trial intervals : ℕ)
    (prepaidBalance : ℤ) : SubscriptionInfo where
  planId := planId
  amount := plan.amount
  intervalLedgers := plan.intervalLedgers
  unitPrice := plan.unitPrice
  usageUnits := 0
  prepaidIntervalsRemaining := intervals
  prepaidBalance := prepaidBalance
  trialLedgers := trial
  trialCompleted := trial = 0
  lastChargedLedger := env.sequence
  active := true
  suspended := false
  failedChargesCount := 0
  delinquentSinceLedger := none

theorem requireFree_ok (h : requireFree pair s = .ok ()) :
    ∀ existing, s.subscriptions.lookup pair = some existing → existing.active = false := by
  intro existing hlookup
  simp only [requireFree, rejectIf_eq_ok, not_exists, not_and, Option.mem_def,
    Bool.not_eq_true] at h
  exact h existing hlookup

theorem subscribe_ok {trialLedgers prepayIntervals : Option ℕ}
    (h : subscribe house env subscriber planId trialLedgers prepayIntervals s = .ok t) :
    ∃ token plan prepaidBalance, s.token = some token ∧ s.plans.lookup planId = some plan ∧
      subscriber ∈ env.auths ∧
      (∀ existing, s.subscriptions.lookup (subscriber, planId) = some existing →
        existing.active = false) ∧
      prepayCost plan.amount (prepayIntervals.getD 0) plan.prepayDiscountBps = .ok prepaidBalance ∧
      t = { note env (.subscribed (subscriber, planId)
              ⟨plan.amount, plan.intervalLedgers, trialLedgers.getD 0⟩)
            (saveSubscription subscriber (newSubscription env planId plan (trialLedgers.getD 0)
              (prepayIntervals.getD 0) prepaidBalance) s) with
        transfers := s.transfers ++
          ifPositive ⟨.prepay planId, token, subscriber, house, prepaidBalance⟩ } := by
  simp only [subscribe, loadActivePlan, bind_eq_ok, okOr_eq_ok, requireAuth_eq_ok, rejectIf_eq_ok,
    pure_eq_ok] at h
  obtain ⟨token, htoken, plan, ⟨_, hplan, _, _, rfl⟩, _, hauth, _, hfree, prepaid, hcost, h⟩ := h
  exact ⟨token, _, prepaid, htoken, hplan, hauth, requireFree_ok hfree, hcost, callIfPositive_ok h⟩

def markCancelled (info : SubscriptionInfo) : SubscriptionInfo := { info with
  active := false, usageUnits := 0, prepaidBalance := 0, prepaidIntervalsRemaining := 0 }

theorem cancel_ok (h : cancel house env subscriber planId s = .ok t) :
    ∃ token info, s.token = some token ∧
      s.subscriptions.lookup (subscriber, planId) = some info ∧ subscriber ∈ env.auths ∧
      info.active = true ∧
      t = { note env (.cancelled (subscriber, planId)) { s with
          subscriptions := s.subscriptions.insert (subscriber, planId) (markCancelled info) } with
        transfers := s.transfers ++
          ifPositive ⟨.refund planId, token, house, subscriber, info.prepaidBalance⟩ } := by
  simp only [cancel, bind_eq_ok, okOr_eq_ok, requireAuth_eq_ok, rejectIf_eq_ok,
    Bool.not_eq_false] at h
  obtain ⟨⟨_, token⟩, hparties, _, hauth, info, hlookup, _, hactive, h⟩ := h
  exact ⟨token, info, (loadParties_ok hparties).2, hlookup, hauth, hactive, callIfPositive_ok h⟩

end SorobanKit.Subscription
