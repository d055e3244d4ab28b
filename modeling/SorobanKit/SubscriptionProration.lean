import Mathlib.Algebra.Order.Field.Basic
import Mathlib.Data.Rat.Cast.Order
import Mathlib.Tactic.FieldSimp
import Mathlib.Tactic.Linarith
import SorobanKit.SubscriptionEscrow

set_option autoImplicit false

/-!
# Changing plans within a paid period

The unused part of a paid period is worth its share of the amount. A change of plan rounds that
worth down, and the ledgers which it buys of a cheaper plan down again, so that no chain of changes
at one ledger gains anything beyond what it charges.
-/
namespace SorobanKit.Subscription
open HostBalances HostInteger HostInvocation HostTransfers
open HostRuns (run_invariant)

/-- What a subscription that is paid up is still worth. -/
def SubscriptionInfo.paidValue (info : SubscriptionInfo) (ledger : ℕ) : ℚ :=
  info.amount * (info.lastChargedLedger + info.intervalLedgers - ledger) / info.intervalLedgers

/-- All that an address has paid so far. -/
def paidBy (source : Address) (s : State) : ℤ := sumOf (fun x => x.source = source) s.transfers

/-- One subscription of a subscriber is migrated from plan to plan, all at one ledger. -/
inductive Migrated (subscriber : Address) (ledger : ℕ) : State → Symbol → State → Symbol → Prop where
  | unmoved (s : State) (planId : Symbol) : Migrated subscriber ledger s planId s planId
  | moved {s t u : State} {planId oldPlanId newPlanId : Symbol} (env : Env)
      (hmigrated : Migrated subscriber ledger s planId t oldPlanId) (hledger : env.sequence = ledger)
      (hok : changePlan env subscriber oldPlanId newPlanId t = .ok u) :
      Migrated subscriber ledger s planId u newPlanId

section Prorations
variable {old info : SubscriptionInfo} {newPlan : Plan} {ledger : ℕ} {p : Proration}

theorem tdiv_bounds {x y : ℤ} (hx : 0 ≤ x) (hy : 0 < y) :
    0 ≤ x.tdiv y ∧ x.tdiv y * y ≤ x ∧ x < (x.tdiv y + 1) * y := by
  rw [Int.tdiv_eq_ediv_of_nonneg hx]
  constructor
  · exact Int.ediv_nonneg hx (le_of_lt hy)
  · constructor
    · exact Int.ediv_mul_le x (ne_of_gt hy)
    · exact Int.lt_ediv_add_one_mul_self x hy

/-- The two divisions, each as a pair of bounds. `bought` is what the new subscription has left. -/
theorem prorate_ok (hamount : 0 < old.amount) (hinterval : 0 < old.intervalLedgers)
    (hnew : 0 < newPlan.amount) (h : prorate old newPlan ledger = .ok p) :
    0 ≤ p.charge ∧
    (p.credit * old.intervalLedgers ≤
        old.amount * (old.lastChargedLedger + old.intervalLedgers - ledger) ∧
      old.amount * (old.lastChargedLedger + old.intervalLedgers - ledger) <
        (p.credit + 1) * old.intervalLedgers) ∧
    ∃ bought : ℕ, p.lastChargedLedger + newPlan.intervalLedgers = ledger + bought ∧
      newPlan.amount * bought ≤ (p.credit + p.charge) * newPlan.intervalLedgers ∧
      (p.credit + p.charge) * newPlan.intervalLedgers < newPlan.amount * (bought + 1) := by
  simp only [prorate, bind_eq_ok, rejectIf_eq_ok, okOr_eq_ok, checkedAddU32_eq_some,
    Option.bind_eq_some_iff, checkedMul_eq_some, ite_eq_ok, checkedSub_eq_some, pure_eq_ok] at h
  obtain ⟨_, _, nextDue, ⟨_, hnext⟩, _, hremaining, credit, ⟨v, ⟨_, hv⟩, hcredit⟩, h⟩ := h
  unfold saturatingSubU32 at hv hremaining
  rw [if_neg (by omega), checked_eq_some] at hcredit
  have hleft : ((nextDue - ledger : ℕ) : ℤ) =
      old.lastChargedLedger + old.intervalLedgers - ledger := by omega
  rw [hleft] at hv
  have hv0 : 0 ≤ v := by
    rw [← hv]
    exact Int.mul_nonneg (le_of_lt hamount) (by omega)
  obtain ⟨hc0, hc, hc'⟩ := tdiv_bounds hv0 (by omega : (0 : ℤ) < old.intervalLedgers)
  rw [hcredit.2, ← hv] at hc hc'
  rw [hcredit.2] at hc0
  rcases h with ⟨hupgrade, charge, ⟨_, hcharge⟩, rfl⟩ | ⟨hdowngrade, bought, hbought, last, hlast, rfl⟩
  · have hsum : credit + charge = newPlan.amount := by omega
    have hpositive : 0 ≤ charge := by omega
    refine ⟨hpositive, ⟨hc, hc'⟩, newPlan.intervalLedgers, rfl, ?_, ?_⟩
    · rw [hsum]
    · rw [hsum]
      exact Int.mul_lt_mul_of_pos_left (by omega) hnew
  · obtain ⟨w, ⟨_, hw⟩, r, hr, hbought⟩ := hbought
    rw [if_neg (by omega), checked_eq_some] at hr
    obtain ⟨_, rfl⟩ := hr
    have hw0 : 0 ≤ w := by
      rw [← hw]
      exact Int.mul_nonneg hc0 (by omega)
    obtain ⟨hb0, hb, hb'⟩ := tdiv_bounds hw0 hnew
    have hcast : (bought : ℤ) = w.tdiv newPlan.amount := by
      unfold toU32 at hbought
      split at hbought
      · cases hbought
        omega
      · cases hbought
    rw [← hcast, ← hw] at hb hb'
    -- the credit pays for an interval of the new plan at least
    have hinterval : newPlan.intervalLedgers ≤ bought := by
      have hless : newPlan.amount * newPlan.intervalLedgers < newPlan.amount * (bought + 1) := by
        calc newPlan.amount * newPlan.intervalLedgers
          _ ≤ credit * newPlan.intervalLedgers :=
            Int.mul_le_mul_of_nonneg_right (by omega) (by omega)
          _ < (bought + 1) * newPlan.amount := hb'
          _ = newPlan.amount * (bought + 1) := Int.mul_comm _ _
      have hlt := Int.lt_of_mul_lt_mul_left hless (le_of_lt hnew)
      omega
    unfold saturatingSubU32 at hlast
    refine ⟨le_refl 0, ⟨hc, hc'⟩, bought, ?_, ?_, ?_⟩
    · dsimp only
      omega
    · rw [Int.add_zero, Int.mul_comm]
      exact hb
    · rw [Int.add_zero, Int.mul_comm newPlan.amount]
      exact hb'

theorem paidValue_eq {bought : ℕ} (h : info.lastChargedLedger + info.intervalLedgers =
    ledger + bought) : info.paidValue ledger = info.amount * bought / info.intervalLedgers := by
  have hcast : (info.lastChargedLedger + info.intervalLedgers : ℚ) = ledger + bought := by
    exact_mod_cast h
  unfold SubscriptionInfo.paidValue
  rw [hcast, add_sub_cancel_left]

theorem prorate_value (hamount : 0 < old.amount) (hinterval : 0 < old.intervalLedgers)
    (hnew : 0 < newPlan.amount) (hlong : 0 < newPlan.intervalLedgers)
    (h : prorate old newPlan ledger = .ok p) (hsame : info.amount = newPlan.amount)
    (hevery : info.intervalLedgers = newPlan.intervalLedgers)
    (hlast : info.lastChargedLedger = p.lastChargedLedger) :
    info.paidValue ledger ≤ old.paidValue ledger + p.charge ∧
    old.paidValue ledger + p.charge - info.paidValue ledger ≤
      info.amount / info.intervalLedgers + 1 := by
  obtain ⟨_, ⟨hcredit, hcredit'⟩, bought, hdue, hbuys, hbuys'⟩ := prorate_ok hamount hinterval hnew h
  have hvalue : info.paidValue ledger = newPlan.amount * bought / newPlan.intervalLedgers := by
    rw [paidValue_eq (by rw [hlast, hevery]; exact hdue), hsame, hevery]
  have hI : (0 : ℚ) < old.intervalLedgers := by exact_mod_cast hinterval
  have hJ : (0 : ℚ) < newPlan.intervalLedgers := by exact_mod_cast hlong
  have hlow : (p.credit : ℚ) ≤ old.paidValue ledger := by
    unfold SubscriptionInfo.paidValue
    rw [le_div_iff₀ hI]
    exact_mod_cast hcredit
  have hhigh : old.paidValue ledger < p.credit + 1 := by
    unfold SubscriptionInfo.paidValue
    rw [div_lt_iff₀ hI]
    exact_mod_cast hcredit'
  have hworth : info.paidValue ledger ≤ p.credit + p.charge := by
    rw [hvalue, div_le_iff₀ hJ]
    exact_mod_cast hbuys
  have hworth' : (p.credit + p.charge : ℚ) <
      info.paidValue ledger + newPlan.amount / newPlan.intervalLedgers := by
    rw [hvalue, ← add_div, lt_div_iff₀ hJ]
    have hcast : ((p.credit : ℚ) + p.charge) * newPlan.intervalLedgers <
        newPlan.amount * (bought + 1) := by exact_mod_cast hbuys'
    linarith
  rw [hsame, hevery]
  constructor
  · linarith
  · linarith

end Prorations

section Records
variable {house : Address} {env : Env} {s t u : State} {pair : Pair} {info : SubscriptionInfo}
  {subscriber : Address}

def Plan.price (plan : Plan) : ℤ × ℕ := (plan.amount, plan.intervalLedgers)

def SubscriptionInfo.price (info : SubscriptionInfo) : ℤ × ℕ := (info.amount, info.intervalLedgers)

/-- Every plan costs something, and every record has the price of its plan. -/
structure Priced (s : State) : Prop where
  positive : ∀ planId, ∀ plan ∈ s.plans.lookup planId, 0 < plan.amount ∧ 0 < plan.intervalLedgers
  agreed : ∀ pair, ∀ info ∈ s.subscriptions.lookup pair, info.planId = pair.2 ∧
    ∃ plan ∈ s.plans.lookup pair.2, info.price = plan.price

theorem Priced.record_positive (hs : Priced s) (h : s.subscriptions.lookup pair = some info) :
    0 < info.amount ∧ 0 < info.intervalLedgers := by
  obtain ⟨_, plan, hplan, hprice⟩ := hs.agreed pair info h
  have hpositive := hs.positive pair.2 plan hplan
  unfold SubscriptionInfo.price Plan.price at hprice
  rw [Prod.mk.injEq] at hprice
  rw [hprice.1, hprice.2]
  exact hpositive

theorem Priced.replaced (hs : Priced s) (pair : Pair) (info : SubscriptionInfo)
    (hplan : info.planId = pair.2)
    (hprice : ∃ plan ∈ s.plans.lookup pair.2, info.price = plan.price)
    (hsubs : t.subscriptions = s.subscriptions.insert pair info) (hplans : t.plans = s.plans) :
    Priced t := by
  constructor
  · rw [hplans]
    exact hs.positive
  · rw [hplans]
    intro other record h
    rw [hsubs, lookup_insert_ite] at h
    split at h
    · next heq =>
      cases h
      rw [heq]
      exact ⟨hplan, hprice⟩
    · exact hs.agreed other record h

/-- A record that is marked keeps its price. -/
theorem Priced.marked (hs : Priced s) (hlookup : s.subscriptions.lookup pair = some info)
    (record : SubscriptionInfo) (hplan : record.planId = info.planId)
    (hprice : record.price = info.price)
    (hsubs : t.subscriptions = s.subscriptions.insert pair record) (hplans : t.plans = s.plans) :
    Priced t := by
  obtain ⟨hkey, plan, hagreed, hsame⟩ := hs.agreed pair info hlookup
  exact hs.replaced pair record (hplan.trans hkey) ⟨plan, hagreed, hprice.trans hsame⟩ hsubs hplans

theorem Priced.unchanged (hs : Priced s) (hsubs : t.subscriptions = s.subscriptions)
    (hplans : t.plans = s.plans) : Priced t := by
  constructor
  · rw [hplans]
    exact hs.positive
  · rw [hplans, hsubs]
    exact hs.agreed

/-- Plans are never removed, and keep their prices. -/
theorem Priced.planned (hs : Priced s) {planId : Symbol} {plan : Plan}
    (hpositive : 0 < plan.amount ∧ 0 < plan.intervalLedgers)
    (hkept : ∀ old ∈ s.plans.lookup planId, old.price = plan.price) :
    Priced { s with plans := s.plans.insert planId plan } := by
  constructor
  · intro other next h
    rw [lookup_insert_ite] at h
    split at h
    · cases h
      exact hpositive
    · exact hs.positive other next h
  · intro other record h
    obtain ⟨hkey, old, hold, hprice⟩ := hs.agreed other record h
    refine ⟨hkey, ?_⟩
    rw [lookup_insert_ite]
    split
    · next heq =>
      rw [heq] at hold
      exact ⟨plan, rfl, hprice.trans (hkept old hold)⟩
    · exact ⟨old, hold, hprice⟩

theorem Attempt.priced {provider token : Address} {grace : ℕ} (hs : Priced s)
    (hlookup : s.subscriptions.lookup pair = some info)
    (h : Attempt env provider token grace pair info s t) : Priced t := by
  have hkey := (hs.agreed pair info hlookup).1
  cases h with
  | trialCompleted =>
    have hmarked : (markTrialCompleted env info).planId = pair.2 := hkey
    rw [saveSubscription_eq hmarked]
    exact hs.marked hlookup (markTrialCompleted env info) rfl rfl rfl rfl
  | charged =>
    have hmarked : (markCharged env info).planId = pair.2 := hkey
    rw [saveSubscription_eq hmarked]
    exact hs.marked hlookup (markCharged env info) rfl rfl rfl rfl
  | suspended =>
    have hmarked : (markSuspended env info).planId = pair.2 := hkey
    rw [saveSubscription_eq hmarked]
    exact hs.marked hlookup (markSuspended env info) rfl rfl rfl rfl
  | failed =>
    have hmarked : (recordFailure env info).planId = pair.2 := hkey
    rw [saveSubscription_eq hmarked]
    exact hs.marked hlookup (recordFailure env info) rfl rfl rfl rfl

theorem attempts_priced {provider token : Address} {grace : ℕ} {pairs : List Pair}
    (hs : Priced s) : Priced (pairs.foldl (attempt env provider token grace) s) := by
  induction pairs generalizing s with
  | nil => exact hs
  | cons pair rest ih =>
    apply ih
    rcases attempt_cases env provider token grace s pair with heq | ⟨info, hlookup, _, h⟩
    · rw [heq]
      exact hs
    · exact h.priced hs hlookup

/-- The record that a change of plan leaves. -/
def migratedRecord (old : SubscriptionInfo) (newPlanId : Symbol) (newPlan : Plan)
    (proration : Proration) : SubscriptionInfo where
  planId := newPlanId
  amount := newPlan.amount
  intervalLedgers := newPlan.intervalLedgers
  unitPrice := newPlan.unitPrice
  usageUnits := 0
  prepaidIntervalsRemaining := 0
  prepaidBalance := 0
  trialLedgers := old.trialLedgers
  trialCompleted := old.trialCompleted
  lastChargedLedger := proration.lastChargedLedger
  active := true
  suspended := false
  failedChargesCount := 0
  delinquentSinceLedger := none

theorem changePlan_prorates {oldPlanId newPlanId : Symbol}
    (h : changePlan env subscriber oldPlanId newPlanId s = .ok t) :
    ∃ (provider token : Address) (old : SubscriptionInfo) (newPlan : Plan) (proration : Proration),
      s.subscriptions.lookup (subscriber, oldPlanId) = some old ∧
      s.plans.lookup newPlanId = some newPlan ∧
      prorateOrCarry old newPlan env.sequence = .ok proration ∧ t.plans = s.plans ∧
      t.subscriptions = (s.subscriptions.insert (subscriber, old.planId)
        { old with active := false }).insert (subscriber, newPlanId)
          (migratedRecord old newPlanId newPlan proration) ∧
      t.transfers = s.transfers ++
        ifPositive ⟨.proration newPlanId, token, subscriber, provider, proration.charge⟩ := by
  simp only [changePlan, loadActivePlan, bind_eq_ok, okOr_eq_ok, pure_eq_ok] at h
  obtain ⟨⟨provider, token⟩, _, _, _, old, hold, _, _, _, _, _, ⟨newPlan, hplan, _, _, rfl⟩, _,
    _, proration, hproration, u, hpay, rfl⟩ := h
  rw [callIfPositive_ok hpay]
  exact ⟨provider, token, old, _, proration, hold, hplan, hproration, rfl, rfl, rfl⟩

theorem changePlan_priced {oldPlanId newPlanId : Symbol} (hs : Priced s)
    (h : changePlan env subscriber oldPlanId newPlanId s = .ok t) : Priced t := by
  obtain ⟨_, _, old, newPlan, proration, hold, hplan, _, hplans, hsubs, _⟩ := changePlan_prorates h
  have hkey : old.planId = oldPlanId := (hs.agreed _ old hold).1
  have hlookup : s.subscriptions.lookup (subscriber, old.planId) = some old := by
    rw [hkey]
    exact hold
  let records := s.subscriptions.insert (subscriber, old.planId) { old with active := false }
  have hended : Priced { s with subscriptions := records } :=
    hs.marked hlookup { old with active := false } rfl rfl rfl rfl
  exact hended.replaced (subscriber, newPlanId) (migratedRecord old newPlanId newPlan proration) rfl
    ⟨newPlan, hplan, rfl⟩ hsubs hplans

theorem execCall_priced {call : BillingCall} (hs : Priced s) (h : execCall house env call s = .ok t) :
    Priced t := by
  obtain ⟨h, _⟩ := bumped_eq_ok.mp h
  unfold dispatch at h
  cases call with
  | initializeSubscription provider token =>
    simp only [initializeSubscription, bind_eq_ok, pure_eq_ok] at h
    obtain ⟨_, _, _, _, _, _, rfl⟩ := h
    exact hs.unchanged rfl rfl
  | setGracePeriod gracePeriodLedgers =>
    simp only [setGracePeriod, bind_eq_ok, pure_eq_ok] at h
    obtain ⟨_, _, _, _, rfl⟩ := h
    exact hs.unchanged rfl rfl
  | registerPlan planId amount intervalLedgers unitPrice prepayDiscountBps =>
    simp only [registerPlan, bind_eq_ok, rejectIf_eq_ok, pure_eq_ok] at h
    obtain ⟨_, _, _, _, _, hamount, _, hinterval, _, _, _, hnew, rfl⟩ := h
    apply hs.planned
    · dsimp only
      omega
    · intro old hold
      exact absurd (Finmap.lookup_isSome.mp (Option.isSome_of_mem hold)) hnew
  | setPlanActive planId active =>
    simp only [setPlanActive, bind_eq_ok, okOr_eq_ok, pure_eq_ok] at h
    obtain ⟨_, _, _, _, plan, hplan, rfl⟩ := h
    apply hs.planned
    · exact hs.positive planId plan hplan
    · intro old hold
      rw [hplan] at hold
      cases hold
      rfl
  | subscribe subscriber planId trialLedgers prepayIntervals =>
    obtain ⟨token, plan, prepaid, _, hplan, _, _, _, rfl⟩ := subscribe_ok h
    exact hs.replaced (subscriber, planId) (newSubscription env planId plan (trialLedgers.getD 0)
      (prepayIntervals.getD 0) prepaid) rfl ⟨plan, hplan, rfl⟩ rfl rfl
  | charge subscriber planId =>
    obtain ⟨_, _, _, _, _, hlookup, _, hattempt⟩ := charge_ok h
    exact hattempt.priced hs hlookup
  | chargeBatch pairs =>
    obtain ⟨_, _, _, _, rfl⟩ := chargeBatch_ok h
    exact attempts_priced hs
  | cancel subscriber planId =>
    obtain ⟨_, info, _, hlookup, _, _, rfl⟩ := cancel_ok h
    exact hs.marked hlookup (markCancelled info) rfl rfl rfl rfl

theorem runEscrow_priced (is : List (Invocation house EscrowCall)) :
    Priced (runEscrow State.empty is) := by
  have hstep : ∀ s (i : Invocation house EscrowCall) t, Priced s → execEscrow i s = .ok t →
      Priced t := by
    intro s i t hs h
    unfold execEscrow at h
    cases hcall : i.call with
    | billing call =>
      rw [hcall] at h
      exact execCall_priced hs h
    | changePlan subscriber oldPlanId newPlanId =>
      rw [hcall] at h
      exact changePlan_priced hs (bumped_eq_ok.mp h).1
  have hempty : Priced State.empty := by
    constructor
    · intro planId plan h
      simp [State.empty] at h
    · intro pair info h
      simp [State.empty] at h
  exact run_invariant hstep hempty is

end Records

section Chains
variable {house subscriber : Address} {env : Env} {s t u : State} {planId oldPlanId newPlanId : Symbol}
  {old now : SubscriptionInfo} {ledger : ℕ}

theorem sumOf_ifPositive {x : Transfer Purpose} {q : Transfer Purpose → Bool} (hx : q x = true)
    (hnonneg : 0 ≤ x.amount) : sumOf q (ifPositive x) = x.amount := by
  unfold ifPositive
  split
  · rw [sumOf_cons, if_pos hx, sumOf_nil, Int.add_zero]
  · rw [sumOf_nil]
    omega

theorem changePlan_value (hs : Priced s)
    (hnow : s.subscriptions.lookup (subscriber, oldPlanId) = some now)
    (htrial : now.trialCompleted = true)
    (hok : changePlan env subscriber oldPlanId newPlanId s = .ok t) :
    ∃ next, t.subscriptions.lookup (subscriber, newPlanId) = some next ∧
      next.trialCompleted = true ∧
      next.paidValue env.sequence ≤
        now.paidValue env.sequence + (paidBy subscriber t - paidBy subscriber s : ℤ) ∧
      now.paidValue env.sequence + (paidBy subscriber t - paidBy subscriber s : ℤ) -
        next.paidValue env.sequence ≤ next.amount / next.intervalLedgers + 1 := by
  obtain ⟨provider, token, found, newPlan, proration, hfound, hplan,
    hproration, _, hsubs, htransfers⟩ := changePlan_prorates hok
  rw [hnow] at hfound
  cases hfound
  obtain ⟨hamount, hinterval⟩ := hs.record_positive hnow
  obtain ⟨hnew, hlong⟩ := hs.positive newPlanId newPlan hplan
  unfold prorateOrCarry at hproration
  rw [if_pos htrial] at hproration
  have hcharge := (prorate_ok hamount hinterval hnew hproration).1
  have hpaid : paidBy subscriber t - paidBy subscriber s = proration.charge := by
    unfold paidBy
    rw [htransfers, sumOf_append, sumOf_ifPositive (decide_eq_true rfl) hcharge, add_sub_cancel_left]
  rw [hpaid]
  refine ⟨migratedRecord now newPlanId newPlan proration, ?_, htrial, ?_⟩
  · rw [hsubs, Finmap.lookup_insert]
  · exact prorate_value hamount hinterval hnew hlong hproration rfl rfl rfl

theorem Migrated.plans_eq (h : Migrated subscriber ledger s planId t newPlanId) :
    t.plans = s.plans := by
  induction h with
  | unmoved => rfl
  | moved env _ _ hok ih =>
    obtain ⟨_, _, _, _, _, _, _, _, hplans, _⟩ := changePlan_prorates hok
    rw [hplans, ih]

theorem Migrated.value_le (h : Migrated subscriber ledger s planId t newPlanId) (hs : Priced s)
    (hold : s.subscriptions.lookup (subscriber, planId) = some old)
    (htrial : old.trialCompleted = true) :
    Priced t ∧ ∃ now, t.subscriptions.lookup (subscriber, newPlanId) = some now ∧
      now.trialCompleted = true ∧ now.paidValue ledger ≤
        old.paidValue ledger + (paidBy subscriber t - paidBy subscriber s : ℤ) := by
  induction h with
  | unmoved planId =>
    refine ⟨hs, old, hold, htrial, ?_⟩
    rw [sub_self, Int.cast_zero, add_zero]
  | moved env _ hledger hok ih =>
    obtain ⟨ht, now, hnow, htrial', hle⟩ := ih hold
    obtain ⟨next, hnext, htrial'', hvalue, _⟩ := changePlan_value ht hnow htrial' hok
    rw [hledger] at hvalue
    refine ⟨changePlan_priced ht hok, next, hnext, htrial'', ?_⟩
    push_cast at hvalue hle ⊢
    linarith

theorem paidValue_le_iff {charged : ℤ} (hinterval : 0 < old.intervalLedgers)
    (hprice : now.price = old.price) :
    now.paidValue ledger ≤ old.paidValue ledger + charged ↔
      old.amount * (now.lastChargedLedger - old.lastChargedLedger) ≤
        old.intervalLedgers * charged := by
  unfold SubscriptionInfo.price at hprice
  rw [Prod.mk.injEq] at hprice
  have hI : (0 : ℚ) < old.intervalLedgers := by exact_mod_cast hinterval
  unfold SubscriptionInfo.paidValue
  rw [hprice.1, hprice.2, div_add' _ _ _ (ne_of_gt hI), div_le_div_iff_of_pos_right hI,
    ← @Int.cast_le ℚ]
  push_cast
  constructor
  · intro h
    linarith
  · intro h
    linarith

end Chains

/-- Two plans, and a subscription to the cheaper one that is paid until ledger 110. -/
def migrationSetup : List (Invocation demoHouse EscrowCall) :=
  [demoInvoke 1 true (.billing (.initializeSubscription demoProvider demoToken)),
    demoInvoke 1 true (.billing (.registerPlan "basic" 50 100 0 0)),
    demoInvoke 1 true (.billing (.registerPlan "pro" 80 100 0 0)),
    demoInvoke 10 true (.billing (.subscribe demoSubscriber "basic" none none))]

def migrateAway : Invocation demoHouse EscrowCall :=
  demoInvoke 50 true (.changePlan demoSubscriber "basic" "pro")

def migrateBack : Invocation demoHouse EscrowCall :=
  demoInvoke 50 true (.changePlan demoSubscriber "pro" "basic")

def basicRecord (lastChargedLedger : ℕ) : SubscriptionInfo where
  planId := "basic"
  amount := 50
  intervalLedgers := 100
  unitPrice := 0
  usageUnits := 0
  prepaidIntervalsRemaining := 0
  prepaidBalance := 0
  trialLedgers := 0
  trialCompleted := true
  lastChargedLedger := lastChargedLedger
  active := true
  suspended := false
  failedChargesCount := 0
  delinquentSinceLedger := none

theorem migrated_away_and_back :
    Migrated demoSubscriber 50 (runEscrow State.empty migrationSetup) "basic"
      (runEscrow State.empty (migrationSetup ++ [migrateAway, migrateBack])) "basic" := by
  have haway : changePlan migrateAway.toEnv demoSubscriber "basic" "pro"
      (runEscrow State.empty migrationSetup) =
        .ok (runEscrow State.empty (migrationSetup ++ [migrateAway])) := rfl
  have hback : changePlan migrateBack.toEnv demoSubscriber "pro" "basic"
      (runEscrow State.empty (migrationSetup ++ [migrateAway])) =
        .ok (runEscrow State.empty (migrationSetup ++ [migrateAway, migrateBack])) := rfl
  exact .moved migrateBack.toEnv (.moved migrateAway.toEnv (.unmoved _ _) rfl haway) rfl hback

section Reachable
variable {house subscriber : Address} {t : State} {planId newPlanId : Symbol}
  {old : SubscriptionInfo} {ledger : ℕ}

/-- Migrations at one ledger create nothing: each is worth what was there and what it charges, up to
    rounding down, and one that comes back to its plan has paid for the ledgers it gained. -/
theorem migrations_create_nothing (is : List (Invocation house EscrowCall))
    (hold : (runEscrow State.empty is).subscriptions.lookup (subscriber, planId) = some old)
    (htrial : old.trialCompleted = true)
    (hchain : Migrated subscriber ledger (runEscrow State.empty is) planId t newPlanId) :
    ∃ now, t.subscriptions.lookup (subscriber, newPlanId) = some now ∧
      (∀ env lastPlanId u, env.sequence = ledger →
        changePlan env subscriber newPlanId lastPlanId t = .ok u →
        ∃ next, u.subscriptions.lookup (subscriber, lastPlanId) = some next ∧
          next.paidValue ledger ≤
            now.paidValue ledger + (paidBy subscriber u - paidBy subscriber t : ℤ) ∧
          now.paidValue ledger + (paidBy subscriber u - paidBy subscriber t : ℤ) -
            next.paidValue ledger ≤ next.amount / next.intervalLedgers + 1) ∧
      now.paidValue ledger ≤ old.paidValue ledger +
        (paidBy subscriber t - paidBy subscriber (runEscrow State.empty is) : ℤ) ∧
      (newPlanId = planId →
        now.price = old.price ∧
        old.amount * (now.lastChargedLedger - old.lastChargedLedger) ≤ old.intervalLedgers *
          (paidBy subscriber t - paidBy subscriber (runEscrow State.empty is))) := by
  have hs := runEscrow_priced is
  obtain ⟨ht, now, hnow, htrial', hvalue⟩ := hchain.value_le hs hold htrial
  refine ⟨now, hnow, ?_, hvalue, ?_⟩
  · intro env lastPlanId u hledger hok
    obtain ⟨next, hnext, _, hbounds⟩ := changePlan_value ht hnow htrial' hok
    rw [hledger] at hbounds
    exact ⟨next, hnext, hbounds⟩
  · intro hback
    have hprice : now.price = old.price := by
      obtain ⟨_, plan, hplan, hsame⟩ := ht.agreed _ now hnow
      obtain ⟨_, first, hfirst, hagreed⟩ := hs.agreed _ old hold
      rw [hchain.plans_eq, hback] at hplan
      rw [hsame, hagreed, Option.mem_unique hplan hfirst]
    exact ⟨hprice, (paidValue_le_iff (hs.record_positive hold).2 hprice).mp hvalue⟩

end Reachable

/-- The 50 that are charged on the way buy 100 ledgers. -/
theorem migrations_create_nothing_demo :
    ∃ now, (runEscrow State.empty (migrationSetup ++ [migrateAway, migrateBack])).subscriptions.lookup
        demoPair = some now ∧
      50 * ((now.lastChargedLedger : ℤ) - 10) ≤ 100 * 50 := by
  have hold : (runEscrow State.empty migrationSetup).subscriptions.lookup demoPair =
      some (basicRecord 10) := by decide +kernel
  rcases migrations_create_nothing migrationSetup hold rfl migrated_away_and_back with
    ⟨now, hnow, _, _, hback⟩
  refine ⟨now, hnow, ?_⟩
  have hpaid : paidBy demoSubscriber
      (runEscrow State.empty (migrationSetup ++ [migrateAway, migrateBack])) -
        paidBy demoSubscriber (runEscrow State.empty migrationSetup) = 50 := by decide +kernel
  have hgain := (hback rfl).2
  rw [hpaid] at hgain
  exact hgain

/-- A migration that charges starts a new interval, so that paid time gets longer on the way. -/
theorem paid_time_extended : ¬ ∀ (is : List (Invocation demoHouse EscrowCall)) (subscriber : Address)
    (planId : Symbol) (ledger : ℕ) (t : State) (old now : SubscriptionInfo),
    (runEscrow State.empty is).subscriptions.lookup (subscriber, planId) = some old →
    old.trialCompleted = true → Migrated subscriber ledger (runEscrow State.empty is) planId t planId →
    t.subscriptions.lookup (subscriber, planId) = some now →
    now.lastChargedLedger + now.intervalLedgers ≤ old.lastChargedLedger + old.intervalLedgers := by
  intro h
  have hle := h migrationSetup demoSubscriber "basic" 50
    (runEscrow State.empty (migrationSetup ++ [migrateAway, migrateBack])) (basicRecord 10)
    (basicRecord 110) (by decide +kernel) rfl migrated_away_and_back (by decide +kernel)
  revert hle
  decide

end SorobanKit.Subscription
