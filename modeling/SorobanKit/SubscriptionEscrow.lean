import SorobanKit.SubscriptionBilling

set_option autoImplicit false

/-!
# Prepaid money

What subscribers prepay stays with the contract until they cancel. Charges do not use it, and a
record that is suspended or migrated is no longer active and cannot be cancelled, so what it holds
is stranded. `stranded` only grows, and it stays zero in a run where no charge falls due on a
prepaid record and none with money in it is migrated.
-/
namespace SorobanKit.Subscription
open HostBalances HostInteger HostInvocation HostTransfers
open HostRuns (Entry history history_mem run_invariant_along along_of_history run_invariant)

variable {house provider token subscriber : Address} {ledger : Ledger} {env : Env} {s t u : State}
  {pair : Pair} {info : SubscriptionInfo} {planId : Symbol} {keeps : Prop}

/-- The sum of `prepaid_balance` over all records. -/
def held (s : State) : ℤ := sumBy (fun _ info => info.prepaidBalance) s.subscriptions

def activePart (_ : Pair) (info : SubscriptionInfo) : ℤ :=
  if info.active then info.prepaidBalance else 0

/-- What the contract holds beyond what active records do. -/
def stranded (token house : Address) (s : State) : ℤ :=
  gain token house s.transfers - sumBy activePart s.subscriptions

structure RecordOk (house : Address) (pair : Pair) (info : SubscriptionInfo) : Prop where
  plan_eq : info.planId = pair.2
  subscriber_ne : pair.1 ≠ house
  prepaid_nonneg : 0 ≤ info.prepaidBalance
  none_remaining : info.prepaidIntervalsRemaining = 0 → info.prepaidBalance = 0

/-- What holds in every run. -/
structure Kept (house : Address) (s : State) : Prop where
  plan_nonneg : ∀ planId, ∀ plan ∈ s.plans.lookup planId, 0 ≤ plan.amount
  provider_ne : ∀ provider ∈ s.provider, provider ≠ house
  installed : s.token.isSome = s.provider.isSome
  fresh : s.token = none → s.subscriptions = ∅ ∧ s.transfers = []
  records : ∀ pair info, s.subscriptions.lookup pair = some info → RecordOk house pair info

/-- Records that are no longer active hold nothing. -/
def Idle (s : State) : Prop :=
  ∀ pair info, s.subscriptions.lookup pair = some info → info.active = false →
    info.prepaidBalance = 0

theorem held_eq (h : Idle s) : held s = sumBy activePart s.subscriptions := by
  refine sumBy_congr fun pair info hlookup => ?_
  unfold activePart
  split
  · rfl
  · next hinactive => exact h pair info hlookup (by simpa using hinactive)

/-- One step: nothing stranded comes back, and nothing gets stranded if `keeps`. -/
structure Steps (house : Address) (keeps : Prop) (s t : State) : Prop where
  kept : Kept house t
  before : s.token = none → t.subscriptions = s.subscriptions ∧ t.transfers = s.transfers
  token_eq : ∀ token, s.token = some token → t.token = some token
  stranded_le : ∀ token, s.token = some token → stranded token house s ≤ stranded token house t
  exact_of : keeps → Idle s → Idle t ∧
    ∀ token, s.token = some token → stranded token house t = stranded token house s

theorem Steps.refl (hs : Kept house s) : Steps house keeps s s :=
  ⟨hs, fun _ => ⟨rfl, rfl⟩, fun _ h => h, fun _ _ => le_refl _, fun _ h => ⟨h, fun _ _ => rfl⟩⟩

theorem Steps.trans {next : Prop} (h : Steps house keeps s t) (htoken : s.token = some token)
    (hnext : Steps house next t u) : Steps house (keeps ∧ next) s u where
  kept := hnext.kept
  before hnone := by
    rw [htoken] at hnone
    cases hnone
  token_eq token htoken := hnext.token_eq token (h.token_eq token htoken)
  stranded_le token htoken :=
    le_trans (h.stranded_le token htoken) (hnext.stranded_le token (h.token_eq token htoken))
  exact_of hboth hidle := by
    obtain ⟨hmid, hfirst⟩ := h.exact_of hboth.1 hidle
    obtain ⟨hlast, hsecond⟩ := hnext.exact_of hboth.2 hmid
    refine ⟨hlast, fun token htoken => ?_⟩
    rw [hsecond token (h.token_eq token htoken), hfirst token htoken]

/-- One record is replaced, and some transfers are made. -/
theorem Kept.replaced (hs : Kept house s) (htoken : s.token = some token)
    (hinfo : RecordOk house pair info) {xs : List (Transfer Purpose)}
    (hsubs : t.subscriptions = s.subscriptions.insert pair info)
    (htransfers : t.transfers = s.transfers ++ xs) (hsame : t.token = s.token)
    (hprovider : t.provider = s.provider) (hplans : t.plans = s.plans)
    (hgain : activePart pair info - part activePart s.subscriptions pair ≤ gain token house xs)
    (hexact : keeps → Idle s → (info.active = false → info.prepaidBalance = 0) ∧
      gain token house xs = activePart pair info - part activePart s.subscriptions pair) :
    Steps house keeps s t := by
  have hstranded : stranded token house t = stranded token house s + gain token house xs -
      activePart pair info + part activePart s.subscriptions pair := by
    unfold stranded
    rw [hsubs, htransfers, gain_append, sumBy_insert]
    omega
  have honly : ∀ other, s.token = some other → other = token := fun other hother =>
    Option.some_inj.mp (hother.symm.trans htoken)
  have hinstalled : ∀ {P : Prop}, s.token = none → P := fun hnone => by
    rw [htoken] at hnone
    cases hnone
  refine ⟨⟨?_, ?_, ?_, fun hnone => hinstalled (hsame.symm.trans hnone), fun other record h => ?_⟩,
    hinstalled, fun other hother => hsame.trans hother, fun other hother => ?_, fun hkeeps hidle => ⟨fun other record h hinactive => ?_,
      fun other hother => ?_⟩⟩
  · rw [hplans]
    exact hs.plan_nonneg
  · rw [hprovider]
    exact hs.provider_ne
  · rw [hsame, hprovider]
    exact hs.installed
  · rw [hsubs, lookup_insert_ite] at h
    split at h
    · next heq =>
      cases h
      rw [heq]
      exact hinfo
    · exact hs.records other record h
  · obtain rfl := honly other hother
    omega
  · rw [hsubs, lookup_insert_ite] at h
    split at h
    · cases h
      exact (hexact hkeeps hidle).1 hinactive
    · exact hidle other record h hinactive
  · obtain rfl := honly other hother
    have heq := (hexact hkeeps hidle).2
    omega

/-- No charge falls due on a record with prepaid intervals. -/
def Unprepaid (env : Env) (pair : Pair) (s : State) : Prop :=
  ∀ info ∈ s.subscriptions.lookup pair, info.active → info.trialCompleted →
    saturatingAddU32 info.lastChargedLedger info.intervalLedgers ≤ env.sequence →
    info.prepaidIntervalsRemaining = 0

/-- Every attempt, in the state that the ones before it leave. -/
def EachAttempt (P : Pair → State → Prop) (env : Env) (provider token : Address) (grace : ℕ) :
    List Pair → State → Prop
  | [], _ => True
  | pair :: rest, s =>
    P pair s ∧ EachAttempt P env provider token grace rest (attempt env provider token grace s pair)

instance : Decidable (Unprepaid env pair s) :=
  inferInstanceAs (Decidable (∀ info ∈ s.subscriptions.lookup pair, info.active → _ → _ → _))

instance instDecidableEachAttempt {P : Pair → State → Prop} [∀ pair s, Decidable (P pair s)]
    {grace : ℕ} : (pairs : List Pair) → (s : State) →
      Decidable (EachAttempt P env provider token grace pairs s)
  | [], _ => isTrue trivial
  | _ :: rest, _ => @instDecidableAnd _ _ _ (instDecidableEachAttempt rest _)

theorem gain_between_others {x : Transfer Purpose} (hsource : x.source ≠ house)
    (htarget : x.target ≠ house) : gain token house [x] = 0 := by
  simp [gain, received, sent, hsource, htarget]

theorem part_active (hlookup : s.subscriptions.lookup pair = some info)
    (hactive : info.active = true) :
    part activePart s.subscriptions pair = info.prepaidBalance := by
  rw [part_of_lookup hlookup, activePart, if_pos hactive]

theorem activePart_of_active (h : info.active = true) :
    activePart pair info = info.prepaidBalance := if_pos h

theorem Kept.remarked (hs : Kept house s) (htoken : s.token = some token)
    (hlookup : s.subscriptions.lookup pair = some info) (hactive : info.active = true)
    {record : SubscriptionInfo} (hplan : record.planId = info.planId) (hstill : record.active = true)
    (hprepaid : record.prepaidBalance = info.prepaidBalance)
    (hremaining : record.prepaidIntervalsRemaining = info.prepaidIntervalsRemaining)
    {xs : List (Transfer Purpose)} (hgain : gain token house xs = 0)
    (hsubs : t.subscriptions = s.subscriptions.insert pair record)
    (htransfers : t.transfers = s.transfers ++ xs) (hsame : t.token = s.token)
    (hprovider : t.provider = s.provider) (hplans : t.plans = s.plans) : Steps house keeps s t := by
  obtain ⟨hkey, hsubscriber, hnonneg, hnone⟩ := hs.records pair info hlookup
  have hzero : gain token house xs = activePart pair record - part activePart s.subscriptions pair := by
    rw [hgain, part_active hlookup hactive, activePart_of_active hstill, hprepaid, sub_self]
  have hrecord : RecordOk house pair record :=
    ⟨hplan.trans hkey, hsubscriber, by rw [hprepaid]; exact hnonneg,
      by rw [hprepaid, hremaining]; exact hnone⟩
  exact hs.replaced htoken hrecord hsubs htransfers hsame hprovider hplans (le_of_eq hzero.symm)
    fun _ _ => ⟨fun hfalse => absurd (hstill.symm.trans hfalse) (by decide), hzero⟩

theorem Attempt.steps {grace : ℕ} (hs : Kept house s) (htoken : s.token = some token)
    (hprovider : s.provider = some provider) (hlookup : s.subscriptions.lookup pair = some info)
    (hactive : info.active = true) (h : Attempt env provider token grace pair info s t) :
    Steps house (Unprepaid env pair s) s t := by
  obtain ⟨hplan, hsubscriber, hnonneg, hnone⟩ := hs.records pair info hlookup
  cases h with
  | trialCompleted htrial hdue =>
    have hmarked : (markTrialCompleted env info).planId = pair.2 := hplan
    have hstill : (markTrialCompleted env info).active = true := hactive
    rw [saveSubscription_eq hmarked]
    exact hs.remarked htoken hlookup hactive (hmarked.trans hplan.symm) hstill rfl rfl gain_nil
      rfl (List.append_nil _).symm rfl rfl rfl
  | charged htrial hdue hpays =>
    have hmarked : (markCharged env info).planId = pair.2 := hplan
    have hstill : (markCharged env info).active = true := hactive
    have hgain : gain token house [paymentOf provider token pair info] = 0 :=
      gain_between_others hsubscriber (hs.provider_ne provider hprovider)
    rw [saveSubscription_eq hmarked]
    exact hs.remarked htoken hlookup hactive (hmarked.trans hplan.symm) hstill rfl rfl hgain rfl
      rfl rfl rfl rfl
  | suspended htrial hdue hpays hlate =>
    have hmarked : (markSuspended env info).planId = pair.2 := hplan
    have hpart := part_active hlookup hactive
    have hdrop : activePart pair (markSuspended env info) = 0 := rfl
    rw [saveSubscription_eq hmarked]
    refine hs.replaced htoken ⟨hmarked, hsubscriber, hnonneg, hnone⟩ rfl (List.append_nil _).symm
      rfl rfl rfl ?_ fun hkeeps _ => ?_
    · rw [hpart, hdrop, gain_nil]
      omega
    · have hzero := hnone (hkeeps info hlookup hactive htrial hdue)
      rw [hpart, hdrop, hzero]
      exact ⟨fun _ => hzero, rfl⟩
  | failed htrial hdue hpays hearly =>
    have hmarked : (recordFailure env info).planId = pair.2 := hplan
    have hstill : (recordFailure env info).active = true := hactive
    rw [saveSubscription_eq hmarked]
    exact hs.remarked htoken hlookup hactive (hmarked.trans hplan.symm) hstill rfl rfl gain_nil
      rfl (List.append_nil _).symm rfl rfl rfl

theorem Attempt.provider_eq {grace : ℕ} (h : Attempt env provider token grace pair info s t) :
    t.provider = s.provider := by
  cases h <;> rfl

theorem attempts_steps {grace : ℕ} {pairs : List Pair} (hs : Kept house s)
    (htoken : s.token = some token) (hprovider : s.provider = some provider) :
    Steps house (EachAttempt (Unprepaid env) env provider token grace pairs s) s
      (pairs.foldl (attempt env provider token grace) s) := by
  induction pairs generalizing s with
  | nil => exact .refl hs
  | cons pair rest ih =>
    rw [List.foldl_cons]
    rcases attempt_cases env provider token grace s pair with heq | ⟨info, hlookup, hactive, h⟩
    · have hrest := ih hs htoken hprovider
      unfold EachAttempt
      rw [heq]
      exact (Steps.refl hs).trans htoken hrest
    · have hone := h.steps hs htoken hprovider hlookup hactive
      exact hone.trans htoken (ih hone.kept (hone.token_eq token htoken) (h.provider_eq.trans hprovider))

theorem gain_ifPositive {x : Transfer Purpose} {amount : ℤ} (hnonneg : 0 ≤ x.amount)
    (h : x.amount = 0 → amount = 0) (hgain : gain token house [x] = amount) :
    gain token house (ifPositive x) = amount := by
  unfold ifPositive
  split
  · exact hgain
  · rw [h (by omega)]
    rfl

theorem part_free (h : ∀ existing, s.subscriptions.lookup pair = some existing →
    existing.active = false) : part activePart s.subscriptions pair = 0 := by
  cases hlookup : s.subscriptions.lookup pair with
  | none => exact part_of_none hlookup
  | some existing =>
    rw [part_of_lookup hlookup, activePart, h existing hlookup]
    rfl

theorem subscribe_steps {trialLedgers prepayIntervals : Option ℕ} (hs : Kept house s)
    (houtside : house ∉ env.auths)
    (h : subscribe house env subscriber planId trialLedgers prepayIntervals s = .ok t) :
    Steps house keeps s t := by
  obtain ⟨token, plan, prepaid, htoken, hplan, hauth, hfree, hcost, rfl⟩ := subscribe_ok h
  have hsubscriber : subscriber ≠ house := fun heq => houtside (heq ▸ hauth)
  obtain ⟨hnonneg, hzero⟩ := prepayCost_nonneg (hs.plan_nonneg planId plan hplan) hcost
  have hpart := part_free hfree
  have hgain : gain token house
      (ifPositive ⟨.prepay planId, token, subscriber, house, prepaid⟩) = prepaid :=
    gain_ifPositive hnonneg (fun h => h) (gain_incoming _ _ hsubscriber)
  have hnew : activePart (subscriber, planId) (newSubscription env planId plan
      (trialLedgers.getD 0) (prepayIntervals.getD 0) prepaid) = prepaid := rfl
  have hexact : gain token house
      (ifPositive ⟨.prepay planId, token, subscriber, house, prepaid⟩) =
      activePart (subscriber, planId) (newSubscription env planId plan
        (trialLedgers.getD 0) (prepayIntervals.getD 0) prepaid) -
          part activePart s.subscriptions (subscriber, planId) := by
    rw [hgain, hnew, hpart, sub_zero]
  have hrecord : RecordOk house (subscriber, planId) (newSubscription env planId plan
      (trialLedgers.getD 0) (prepayIntervals.getD 0) prepaid) := ⟨rfl, hsubscriber, hnonneg, hzero⟩
  exact hs.replaced htoken hrecord rfl rfl rfl rfl rfl (le_of_eq hexact.symm)
    fun _ _ => ⟨fun hfalse => Bool.noConfusion hfalse, hexact⟩

theorem cancel_steps (hs : Kept house s) (h : cancel house env subscriber planId s = .ok t) :
    Steps house keeps s t := by
  obtain ⟨token, info, htoken, hlookup, _, hactive, rfl⟩ := cancel_ok h
  obtain ⟨hplan, hsubscriber, hnonneg, _⟩ := hs.records _ info hlookup
  have hpart := part_active hlookup hactive
  have hgain : gain token house
      (ifPositive ⟨.refund planId, token, house, subscriber, info.prepaidBalance⟩) =
        -info.prepaidBalance :=
    gain_ifPositive hnonneg (fun hzero => by dsimp only at hzero; omega)
      (gain_outgoing _ _ hsubscriber)
  have hdone : activePart (subscriber, planId) (markCancelled info) = 0 := rfl
  have hexact : gain token house
      (ifPositive ⟨.refund planId, token, house, subscriber, info.prepaidBalance⟩) =
      activePart (subscriber, planId) (markCancelled info) -
        part activePart s.subscriptions (subscriber, planId) := by
    rw [hgain, hdone, hpart, zero_sub]
  have hrecord : RecordOk house (subscriber, planId) (markCancelled info) :=
    ⟨hplan, hsubscriber, le_refl _, fun _ => rfl⟩
  exact hs.replaced htoken hrecord rfl rfl rfl rfl rfl (le_of_eq hexact.symm)
    fun _ _ => ⟨fun _ => rfl, hexact⟩

/-- Calls that touch no record and move nothing. -/
theorem Kept.configured (hs : Kept house s) (hsubs : t.subscriptions = s.subscriptions)
    (htransfers : t.transfers = s.transfers) (hsame : t.token = s.token)
    (hprovider : t.provider = s.provider)
    (hplans : ∀ planId, ∀ plan ∈ t.plans.lookup planId, 0 ≤ plan.amount) : Steps house keeps s t := by
  have hstranded : ∀ token, stranded token house t = stranded token house s := fun token => by
    unfold stranded
    rw [hsubs, htransfers]
  refine ⟨⟨hplans, ?_, ?_, ?_, ?_⟩, fun _ => ⟨hsubs, htransfers⟩,
    fun token htoken => hsame.trans htoken,
    fun token _ => le_of_eq (hstranded token).symm, fun _ hidle => ⟨?_, fun token _ => hstranded token⟩⟩
  · rw [hprovider]
    exact hs.provider_ne
  · rw [hsame, hprovider]
    exact hs.installed
  · rw [hsame, hsubs, htransfers]
    exact hs.fresh
  · rw [hsubs]
    exact hs.records
  · unfold Idle
    rw [hsubs]
    exact hidle

theorem registerPlan_steps {amount unitPrice : ℤ} {intervalLedgers prepayDiscountBps : ℕ}
    (hs : Kept house s)
    (h : registerPlan env planId amount intervalLedgers unitPrice prepayDiscountBps s = .ok t) :
    Steps house keeps s t := by
  simp only [registerPlan, bind_eq_ok, rejectIf_eq_ok, pure_eq_ok] at h
  obtain ⟨_, _, _, _, _, hamount, _, _, _, _, _, _, rfl⟩ := h
  refine hs.configured rfl rfl rfl rfl fun other plan hplan => ?_
  rw [Option.mem_def, lookup_insert_ite] at hplan
  split at hplan
  · cases hplan
    dsimp only
    omega
  · exact hs.plan_nonneg other plan hplan

theorem setPlanActive_steps {active : Bool} (hs : Kept house s)
    (h : setPlanActive env planId active s = .ok t) : Steps house keeps s t := by
  simp only [setPlanActive, bind_eq_ok, okOr_eq_ok, pure_eq_ok] at h
  obtain ⟨_, _, _, _, old, hold, rfl⟩ := h
  refine hs.configured rfl rfl rfl rfl fun other plan hplan => ?_
  rw [Option.mem_def, lookup_insert_ite] at hplan
  split at hplan
  · cases hplan
    exact hs.plan_nonneg planId old hold
  · exact hs.plan_nonneg other plan hplan

theorem initializeSubscription_steps (hs : Kept house s) (houtside : house ∉ env.auths)
    (h : initializeSubscription env provider token s = .ok t) : Steps house keeps s t := by
  simp only [initializeSubscription, bind_eq_ok, rejectIf_eq_ok, requireAuth_eq_ok, pure_eq_ok,
    Bool.not_eq_true, Option.isSome_eq_false_iff, Option.isNone_iff_eq_none] at h
  obtain ⟨_, hnew, _, hauth, _, _, rfl⟩ := h
  have hnone : s.token = none := by
    have hboth := hs.installed
    rw [hnew] at hboth
    simpa using hboth
  refine ⟨⟨hs.plan_nonneg, fun other hother => ?_, rfl, fun _ => hs.fresh hnone, hs.records⟩,
    fun _ => ⟨rfl, rfl⟩,
    fun other hother => ?_, fun other hother => ?_, fun _ hidle => ⟨hidle, fun other hother => ?_⟩⟩
  · obtain rfl := Option.some_inj.mp hother
    exact fun heq => houtside (heq ▸ hauth)
  · rw [hnone] at hother
    cases hother
  · rw [hnone] at hother
    cases hother
  · rw [hnone] at hother
    cases hother

theorem changePlan_ok {oldPlanId newPlanId : Symbol}
    (h : changePlan env subscriber oldPlanId newPlanId s = .ok t) :
    ∃ (provider token : Address) (old : SubscriptionInfo) (newPlan : Plan) (proration : Proration),
      s.provider = some provider ∧ s.token = some token ∧
      s.subscriptions.lookup (subscriber, oldPlanId) = some old ∧ old.active = true ∧
      (∀ existing, s.subscriptions.lookup (subscriber, newPlanId) = some existing →
        existing.active = false) ∧
      t = saveSubscription subscriber
        { planId := newPlanId, amount := newPlan.amount, intervalLedgers := newPlan.intervalLedgers
          unitPrice := newPlan.unitPrice, usageUnits := 0, prepaidIntervalsRemaining := 0
          prepaidBalance := 0, trialLedgers := old.trialLedgers
          trialCompleted := old.trialCompleted, lastChargedLedger := proration.lastChargedLedger
          active := true, suspended := false, failedChargesCount := 0
          delinquentSinceLedger := none }
        (saveSubscription subscriber { old with active := false } { s with
          transfers := s.transfers ++
            ifPositive ⟨.proration newPlanId, token, subscriber, provider, proration.charge⟩ }) := by
  simp only [changePlan, loadActivePlan, bind_eq_ok, okOr_eq_ok, requireAuth_eq_ok, rejectIf_eq_ok,
    pure_eq_ok, Bool.not_eq_false] at h
  obtain ⟨⟨provider, token⟩, hparties, _, _, old, hold, _, _, _, hactive, _, ⟨newPlan, _, _, _, rfl⟩, _,
    hfree, proration, _, u, hpay, rfl⟩ := h
  obtain ⟨hprovider, htoken⟩ := loadParties_ok hparties
  rw [callIfPositive_ok hpay]
  exact ⟨provider, token, old, _, proration, hprovider, htoken, hold, hactive, requireFree_ok hfree,
    rfl⟩

/-- The old record holds nothing. -/
def Migratable (subscriber : Address) (oldPlanId : Symbol) (s : State) : Prop :=
  ∀ old ∈ s.subscriptions.lookup (subscriber, oldPlanId), old.prepaidBalance = 0

theorem changePlan_steps {oldPlanId newPlanId : Symbol} (hs : Kept house s)
    (h : changePlan env subscriber oldPlanId newPlanId s = .ok t) :
    Steps house (Migratable subscriber oldPlanId s) s t := by
  obtain ⟨provider, token, old, newPlan, proration, hprovider, htoken, hold, hactive, hfree, rfl⟩ :=
    changePlan_ok h
  obtain ⟨hplan, hsubscriber, hnonneg, hnone⟩ := hs.records _ old hold
  have hne : newPlanId ≠ oldPlanId := by
    rintro rfl
    exact absurd (hactive.symm.trans (hfree old hold)) (by decide)
  have hpart := part_active hold hactive
  have hgain : gain token house
      (ifPositive ⟨.proration newPlanId, token, subscriber, provider, proration.charge⟩) = 0 := by
    unfold ifPositive
    split
    · exact gain_between_others hsubscriber (hs.provider_ne provider hprovider)
    · rfl
  let ended : SubscriptionInfo := { old with active := false }
  let paid : State := { s with
    transfers := s.transfers ++
      ifPositive ⟨.proration newPlanId, token, subscriber, provider, proration.charge⟩
    subscriptions := s.subscriptions.insert (subscriber, oldPlanId) ended }
  have hended : RecordOk house (subscriber, oldPlanId) ended := ⟨hplan, hsubscriber, hnonneg, hnone⟩
  have hdone : activePart (subscriber, oldPlanId) ended = 0 := rfl
  have hfirst : Steps house (Migratable subscriber oldPlanId s) s paid := by
    refine hs.replaced htoken hended rfl rfl rfl rfl rfl ?_ fun hkeeps _ => ?_
    · rw [hpart, hdone, hgain]
      omega
    · have hzero : old.prepaidBalance = 0 := hkeeps old hold
      refine ⟨fun _ => hzero, ?_⟩
      rw [hpart, hdone, hgain, hzero]
      rfl
  have hfreePaid : ∀ existing, paid.subscriptions.lookup (subscriber, newPlanId) = some existing →
      existing.active = false := fun existing hlookup => by
    refine hfree existing ?_
    rwa [lookup_insert_ite, if_neg fun heq => hne (Prod.mk.inj heq).2] at hlookup
  let fresh : SubscriptionInfo := {
    planId := newPlanId, amount := newPlan.amount, intervalLedgers := newPlan.intervalLedgers
    unitPrice := newPlan.unitPrice, usageUnits := 0, prepaidIntervalsRemaining := 0
    prepaidBalance := 0, trialLedgers := old.trialLedgers
    trialCompleted := old.trialCompleted, lastChargedLedger := proration.lastChargedLedger
    active := true, suspended := false, failedChargesCount := 0
    delinquentSinceLedger := none }
  have hfresh : RecordOk house (subscriber, newPlanId) fresh :=
    ⟨rfl, hsubscriber, le_refl _, fun _ => rfl⟩
  have hexact : gain token house ([] : List (Transfer Purpose)) =
      activePart (subscriber, newPlanId) fresh -
        part activePart paid.subscriptions (subscriber, newPlanId) := by
    rw [part_free hfreePaid]
    rfl
  have hsecond : Steps house True paid { paid with
      subscriptions := paid.subscriptions.insert (subscriber, newPlanId) fresh } :=
    hfirst.kept.replaced htoken hfresh rfl (List.append_nil _).symm rfl rfl rfl
      (le_of_eq hexact.symm) fun _ _ => ⟨fun hfalse => Bool.noConfusion hfalse, hexact⟩
  have hboth := hfirst.trans htoken hsecond
  have hsaved : saveSubscription subscriber fresh (saveSubscription subscriber ended { s with
      transfers := s.transfers ++
        ifPositive ⟨.proration newPlanId, token, subscriber, provider, proration.charge⟩ }) =
      { paid with subscriptions := paid.subscriptions.insert (subscriber, newPlanId) fresh } := by
    rw [saveSubscription, saveSubscription, show ended.planId = oldPlanId from hplan]
  change Steps house _ s (saveSubscription subscriber fresh (saveSubscription subscriber ended _))
  rw [hsaved]
  exact ⟨hboth.kept, hboth.before, hboth.token_eq, hboth.stranded_le,
    fun hkeeps => hboth.exact_of ⟨hkeeps, trivial⟩⟩

/-- The pairs that a call tries to charge. -/
def chargedPairs : BillingCall → List Pair
  | .charge subscriber planId => [(subscriber, planId)]
  | .chargeBatch pairs => pairs
  | _ => []

/-- No charge of the call falls due on a prepaid record, and no money is migrated. -/
def EscrowKeeps (i : Invocation house EscrowCall) (s : State) : Prop :=
  match i.call with
  | .billing call => ∀ provider ∈ s.provider, ∀ token ∈ s.token,
      EachAttempt (Unprepaid i.toEnv) i.toEnv provider token (gracePeriod s) (chargedPairs call) s
  | .changePlan subscriber oldPlanId _ => Migratable subscriber oldPlanId s

instance {i : Invocation house EscrowCall} : Decidable (EscrowKeeps i s) :=
  match hcall : i.call with
  | .billing call => decidable_of_iff (∀ provider ∈ s.provider, ∀ token ∈ s.token,
      EachAttempt (Unprepaid i.toEnv) i.toEnv provider token (gracePeriod s) (chargedPairs call) s)
      (by simp only [EscrowKeeps, hcall])
  | .changePlan subscriber oldPlanId _ => decidable_of_iff
      (∀ old ∈ s.subscriptions.lookup (subscriber, oldPlanId), old.prepaidBalance = 0)
      (by simp only [EscrowKeeps, hcall, Migratable])

theorem Steps.weaken {other : Prop} (h : Steps house keeps s t) (hkeeps : other → keeps) :
    Steps house other s t :=
  ⟨h.kept, h.before, h.token_eq, h.stranded_le, fun hother => h.exact_of (hkeeps hother)⟩

theorem execEscrow_steps {i : Invocation house EscrowCall} (hs : Kept house s)
    (h : execEscrow i s = .ok t) : Steps house (EscrowKeeps i s) s t := by
  unfold execEscrow at h
  unfold EscrowKeeps
  cases hcall : i.call with
  | changePlan subscriber oldPlanId newPlanId =>
    rw [hcall] at h
    exact changePlan_steps hs (bumped_eq_ok.mp h).1
  | billing call =>
    rw [hcall] at h
    obtain ⟨h, _⟩ := bumped_eq_ok.mp h
    unfold dispatch at h
    cases call with
    | initializeSubscription provider token => exact initializeSubscription_steps hs i.outside h
    | setGracePeriod gracePeriodLedgers =>
      simp only [setGracePeriod, bind_eq_ok, pure_eq_ok] at h
      obtain ⟨_, _, _, _, rfl⟩ := h
      exact hs.configured rfl rfl rfl rfl hs.plan_nonneg
    | registerPlan planId amount intervalLedgers unitPrice prepayDiscountBps =>
      exact registerPlan_steps hs h
    | setPlanActive planId active => exact setPlanActive_steps hs h
    | subscribe subscriber planId trialLedgers prepayIntervals =>
      exact subscribe_steps hs i.outside h
    | charge subscriber planId =>
      obtain ⟨provider, token, info, hprovider, htoken, hlookup, hactive, h⟩ := charge_ok h
      exact (h.steps hs htoken hprovider hlookup hactive).weaken
        fun hkeeps => (hkeeps provider hprovider token htoken).1
    | chargeBatch pairs =>
      obtain ⟨provider, token, hprovider, htoken, rfl⟩ := chargeBatch_ok h
      exact (attempts_steps hs htoken hprovider).weaken
        fun hkeeps => hkeeps provider hprovider token htoken
    | cancel subscriber planId => exact cancel_steps hs h

theorem stranded_for_ever (hs : Kept house s) (htoken : s.token = some token)
    (is : List (Invocation house EscrowCall)) :
    stranded token house s ≤ gain token house (runEscrow s is).transfers := by
  have hrun : Kept house (runEscrow s is) ∧ (runEscrow s is).token = some token ∧
      stranded token house s ≤ stranded token house (runEscrow s is) :=
    run_invariant (I := fun u => Kept house u ∧ u.token = some token ∧
        stranded token house s ≤ stranded token house u)
      (fun u i v hu h => by
        obtain ⟨hkept, hinstalled, hle⟩ := hu
        have hstep := execEscrow_steps hkept h
        exact ⟨hstep.kept, hstep.token_eq token hinstalled,
          le_trans hle (hstep.stranded_le token hinstalled)⟩)
      ⟨hs, htoken, le_refl _⟩ is
  have hactive : 0 ≤ sumBy activePart (runEscrow s is).subscriptions := sumBy_nonneg
    fun pair info hlookup => by
      unfold activePart
      split
      · exact (hrun.1.records pair info hlookup).prepaid_nonneg
      · exact le_refl _
  have hle := hrun.2.2
  unfold stranded at hle ⊢
  omega

/-- A charge of a prepaid record takes nothing from others than the contract. -/
def PrepaidFirst (house : Address) (env : Env) (provider token : Address) (grace : ℕ) (pair : Pair)
    (s : State) : Prop :=
  ∀ info ∈ s.subscriptions.lookup pair, 0 < info.prepaidIntervalsRemaining →
    ∀ x ∈ (attempt env provider token grace s pair).transfers.drop s.transfers.length,
      x.source = house

instance {grace : ℕ} : Decidable (PrepaidFirst house env provider token grace pair s) :=
  inferInstanceAs (Decidable (∀ info ∈ s.subscriptions.lookup pair, _ →
    ∀ x ∈ (attempt env provider token grace s pair).transfers.drop s.transfers.length, _))

theorem Unprepaid.prepaidFirst {grace : ℕ} (h : Unprepaid env pair s) :
    PrepaidFirst house env provider token grace pair s := by
  intro info hinfo hpositive x hx
  rcases attempt_cases env provider token grace s pair with heq | ⟨record, hlookup, hactive, hattempt⟩
  · rw [heq, List.drop_length] at hx
    cases hx
  · obtain rfl := Option.some_inj.mp (hinfo.symm.trans hlookup)
    generalize attempt env provider token grace s pair = t at hx hattempt
    cases hattempt with
    | trialCompleted htrial hdue =>
      rw [show (saveSubscription pair.1 _ s).transfers = s.transfers from rfl, List.drop_length] at hx
      cases hx
    | charged htrial hdue hpays =>
      have hzero := h info hlookup hactive htrial hdue
      omega
    | suspended htrial hdue hpays hlate =>
      have hzero := h info hlookup hactive htrial hdue
      omega
    | failed htrial hdue hpays hearly =>
      have hzero := h info hlookup hactive htrial hdue
      omega

theorem EachAttempt.mono {P Q : Pair → State → Prop} {grace : ℕ} {pairs : List Pair}
    (himp : ∀ pair s, P pair s → Q pair s) (h : EachAttempt P env provider token grace pairs s) :
    EachAttempt Q env provider token grace pairs s := by
  induction pairs generalizing s with
  | nil => trivial
  | cons pair rest ih => exact ⟨himp pair s h.1, ih h.2⟩

def ChargesPrepaid (e : Entry State (Invocation house EscrowCall)) : Prop :=
  match e.invocation.call with
  | .billing call => ∀ provider ∈ e.before.provider, ∀ token ∈ e.before.token,
      EachAttempt (PrepaidFirst house e.invocation.toEnv provider token (gracePeriod e.before))
        e.invocation.toEnv provider token (gracePeriod e.before) (chargedPairs call) e.before
  | .changePlan _ _ _ => True

instance {e : Entry State (Invocation house EscrowCall)} : Decidable (ChargesPrepaid e) :=
  match hcall : e.invocation.call with
  | .billing call => decidable_of_iff (∀ provider ∈ e.before.provider, ∀ token ∈ e.before.token,
      EachAttempt (PrepaidFirst house e.invocation.toEnv provider token (gracePeriod e.before))
        e.invocation.toEnv provider token (gracePeriod e.before) (chargedPairs call) e.before)
      (by simp only [ChargesPrepaid, hcall])
  | .changePlan _ _ _ => isTrue (by simp only [ChargesPrepaid, hcall])

/-- What prepaying promises: the contract has what the records say, charges take it first, and every
    subscriber can get the rest back. -/
structure EscrowHolds (ledger : Ledger) (is : List (Invocation house EscrowCall)) : Prop where
  balance : ∀ token ∈ (runEscrow State.empty is).token,
    replay ledger (runEscrow State.empty is).transfers token house = held (runEscrow State.empty is)
  charges : ∀ e ∈ history execEscrow State.empty is, ChargesPrepaid e
  recoverable : ∀ token ∈ (runEscrow State.empty is).token, ∀ pair info,
    (runEscrow State.empty is).subscriptions.lookup pair = some info → 0 < info.prepaidBalance →
    ∀ env : Env, pair.1 ∈ env.auths →
      env.tokens.Pays ledger (runEscrow State.empty is).transfers token house →
      ∃ t, cancel house env pair.1 pair.2 (runEscrow State.empty is) = .ok t ∧
        t.transfers = (runEscrow State.empty is).transfers ++
          [⟨.refund pair.2, token, house, pair.1, info.prepaidBalance⟩]

theorem cancel_refunds (hs : Kept house s) (hidle : Idle s) (htoken : s.token = some token)
    (hexact : stranded token house s = 0) (hempty : ledger token house = 0)
    (hlookup : s.subscriptions.lookup pair = some info) (hpositive : 0 < info.prepaidBalance)
    (hauth : pair.1 ∈ env.auths) (hpays : env.tokens.Pays ledger s.transfers token house) :
    ∃ t, cancel house env pair.1 pair.2 s = .ok t ∧ t.transfers = s.transfers ++
      [⟨.refund pair.2, token, house, pair.1, info.prepaidBalance⟩] := by
  have hactive : info.active = true := by
    by_contra hnot
    have hzero := hidle pair info hlookup (by simpa using hnot)
    omega
  have hinstalled := hs.installed
  rw [htoken] at hinstalled
  obtain ⟨provider, hprovider⟩ := Option.isSome_iff_exists.mp hinstalled.symm
  have hparties : loadParties s = .ok (provider, token) := by
    unfold loadParties
    rw [hprovider, htoken]
    rfl
  have hcovered : info.prepaidBalance ≤ replay ledger s.transfers token house := by
    have hpart := part_le_sumBy (f := activePart) (m := s.subscriptions) (fun other record h => by
      unfold activePart
      split
      · exact (hs.records other record h).prepaid_nonneg
      · exact le_refl _) pair
    rw [part_active hlookup hactive] at hpart
    unfold stranded at hexact
    rw [replay_eq_gain, hempty]
    omega
  let refund : Transfer Purpose := ⟨.refund pair.2, token, house, pair.1, info.prepaidBalance⟩
  have haccepts : env.tokens.accepts s.transfers refund :=
    hpays refund rfl rfl (le_of_lt hpositive) hcovered
  let after : State := note env (.cancelled (pair.1, pair.2)) { s with
    subscriptions := s.subscriptions.insert (pair.1, pair.2) (markCancelled info) }
  have hpaid : callIfPositive env refund after =
      .ok { after with transfers := after.transfers ++ [refund] } := by
    rw [callIfPositive, if_pos hpositive]
    exact recordTransfer_accepted haccepts
  refine ⟨{ after with transfers := after.transfers ++ [refund] }, ?_, rfl⟩
  simp only [cancel, bind_eq_ok]
  exact ⟨_, hparties, (), requireAuth_eq_ok.mpr hauth, info, okOr_eq_ok.mpr hlookup, (),
    rejectIf_neg (by simp [hactive]), hpaid⟩

theorem Kept.empty : Kept house State.empty where
  plan_nonneg planId plan h := by simp [State.empty] at h
  provider_ne provider h := by simp [State.empty] at h
  installed := rfl
  fresh _ := ⟨rfl, rfl⟩
  records pair info h := by simp [State.empty] at h

theorem runEscrow_kept (is : List (Invocation house EscrowCall)) :
    Kept house (runEscrow State.empty is) :=
  run_invariant (fun _ _ _ hs h => (execEscrow_steps hs h).kept) .empty is

/-- Prepaying works in a run where no charge falls due on a prepaid record and no money is
    migrated. -/
theorem escrow_holds (hempty : ∀ token, ledger token house = 0)
    (is : List (Invocation house EscrowCall))
    (hkeeps : ∀ e ∈ history execEscrow State.empty is, EscrowKeeps e.invocation e.before) :
    EscrowHolds ledger is := by
  have hstep : ∀ s (i : Invocation house EscrowCall) t,
      (Kept house s ∧ Idle s ∧ ∀ token, s.token = some token → stranded token house s = 0) →
      (∀ u, execEscrow i s = .ok u → EscrowKeeps i s) → execEscrow i s = .ok t →
      Kept house t ∧ Idle t ∧ ∀ token, t.token = some token → stranded token house t = 0 := by
    rintro s i t ⟨hkept, hidle, hzero⟩ hi h
    have hsteps := execEscrow_steps hkept h
    obtain ⟨hidle', hexact⟩ := hsteps.exact_of (hi t h) hidle
    refine ⟨hsteps.kept, hidle', fun token htoken => ?_⟩
    cases hbefore : s.token with
    | some other =>
      obtain rfl := Option.some_inj.mp (htoken.symm.trans (hsteps.token_eq other hbefore))
      rw [hexact token hbefore, hzero token hbefore]
    | none =>
      obtain ⟨hsubs, htransfers⟩ := hsteps.before hbefore
      obtain ⟨hno, hnone⟩ := hkept.fresh hbefore
      unfold stranded
      rw [htransfers, hsubs, hno, hnone]
      rfl
  have hstart : Kept house State.empty ∧ Idle State.empty ∧
      ∀ token, State.empty.token = some token → stranded token house State.empty = 0 :=
    ⟨.empty, fun pair info h => by simp [State.empty] at h, fun token _ => rfl⟩
  have hP := along_of_history
    (Q := fun s (i : Invocation house EscrowCall) => EscrowKeeps i s) hkeeps
  have hrun : Kept house (runEscrow State.empty is) ∧ Idle (runEscrow State.empty is) ∧
      ∀ token, (runEscrow State.empty is).token = some token →
        stranded token house (runEscrow State.empty is) = 0 :=
    run_invariant_along hstep hstart hP
  obtain ⟨hkept, hidle, hzero⟩ := hrun
  refine ⟨fun token htoken => ?_, fun e he => ?_, fun token htoken pair info hlookup hpositive env
    hauth hpays => cancel_refunds hkept hidle htoken (hzero token htoken) (hempty token) hlookup
      hpositive hauth hpays⟩
  · have hexact := hzero token htoken
    unfold stranded at hexact
    rw [replay_eq_gain, hempty, held_eq hidle]
    omega
  · have hkept := hkeeps e he
    unfold EscrowKeeps at hkept
    unfold ChargesPrepaid
    cases hcall : e.invocation.call with
    | changePlan subscriber oldPlanId newPlanId => trivial
    | billing call =>
      rw [hcall] at hkept
      exact fun provider hprovider token htoken =>
        (hkept provider hprovider token htoken).mono fun _ _ h => h.prepaidFirst

def demoLedger : Ledger := fun token holder =>
  if token = demoToken ∧ holder = demoSubscriber then 1000 else 0

/-- Two intervals of 50 are prepaid. -/
def prepaidSetup : List (Invocation demoHouse EscrowCall) :=
  [demoInvoke 1 true (.billing (.initializeSubscription demoProvider demoToken)),
    demoInvoke 1 true (.billing (.registerPlan "basic" 50 100 0 0)),
    demoInvoke 1 true (.billing (.registerPlan "pro" 80 100 0 0)),
    demoInvoke 10 true (.billing (.subscribe demoSubscriber "basic" none (some 2)))]

/-- The charge is pulled from the subscriber's allowance. -/
def prepaidCharged : List (Invocation demoHouse EscrowCall) := prepaidSetup ++
  [demoInvoke 110 true (.billing (.charge demoSubscriber "basic"))]

/-- Without an allowance the subscription is suspended. -/
def prepaidSuspended : List (Invocation demoHouse EscrowCall) := prepaidSetup ++
  [demoInvoke 11 true (.billing (.setGracePeriod 0)),
    demoInvoke 110 false (.billing (.charge demoSubscriber "basic"))]

/-- The new subscription overwrites the suspended one. -/
def prepaidTwice : List (Invocation demoHouse EscrowCall) := prepaidSuspended ++
  [demoInvoke 120 true (.billing (.subscribe demoSubscriber "basic" none (some 2)))]

def prepaidMigrated : List (Invocation demoHouse EscrowCall) := prepaidSetup ++
  [demoInvoke 50 true (.changePlan demoSubscriber "basic" "pro")]

def honestEnv : Env := ⟨⟨130, [demoSubscriber]⟩, honestReplies demoLedger⟩

theorem not_recoverable {is : List (Invocation demoHouse EscrowCall)}
    (htoken : (runEscrow State.empty is).token = some demoToken)
    (hstored : ((runEscrow State.empty is).subscriptions.lookup demoPair).map
      SubscriptionInfo.prepaidBalance = some 100)
    (hfails : (cancel demoHouse honestEnv demoSubscriber "basic"
      (runEscrow State.empty is)).toOption.isNone) : ¬ EscrowHolds demoLedger is := by
  intro h
  obtain ⟨info, hlookup, hbalance⟩ := Option.map_eq_some_iff.mp hstored
  obtain ⟨t, hok, _⟩ := h.recoverable demoToken htoken demoPair info hlookup (by omega) honestEnv
    List.mem_cons_self (honestReplies_pays demoLedger _ demoToken demoHouse)
  rw [show cancel demoHouse honestEnv demoSubscriber "basic" (runEscrow State.empty is) = .ok t
    from hok] at hfails
  cases hfails

theorem prepayments_lost :
    ¬ EscrowHolds demoLedger prepaidCharged ∧ ¬ EscrowHolds demoLedger prepaidTwice ∧
    ¬ EscrowHolds demoLedger prepaidSuspended ∧ ¬ EscrowHolds demoLedger prepaidMigrated ∧
    ∀ js : List (Invocation demoHouse EscrowCall), 100 ≤ replay demoLedger
      (runEscrow (runEscrow State.empty prepaidSuspended) js).transfers demoToken demoHouse := by
  refine ⟨fun h => ?_, fun h => ?_, not_recoverable (by decide +kernel) (by decide +kernel)
    (by decide +kernel), not_recoverable (by decide +kernel) (by decide +kernel)
    (by decide +kernel), fun js => ?_⟩
  · have hcharged : ¬ ∀ e ∈ history execEscrow State.empty prepaidCharged, ChargesPrepaid e := by
      decide +kernel
    exact hcharged h.charges
  · have htoken : (runEscrow State.empty prepaidTwice).token = some demoToken := by decide +kernel
    have hbalance : replay demoLedger (runEscrow State.empty prepaidTwice).transfers demoToken
        demoHouse = 200 := by decide +kernel
    have hheld : held (runEscrow State.empty prepaidTwice) = 100 := by decide +kernel
    have heq := h.balance demoToken htoken
    omega
  · have hstranded : stranded demoToken demoHouse (runEscrow State.empty prepaidSuspended) = 100 := by
      decide +kernel
    have hever := stranded_for_ever (runEscrow_kept prepaidSuspended) (by decide +kernel :
      (runEscrow State.empty prepaidSuspended).token = some demoToken) js
    have hempty : demoLedger demoToken demoHouse = 0 := rfl
    rw [replay_eq_gain, hempty]
    omega

/-- Prepaid money that is cancelled comes back, next to a subscription that prepaid nothing. -/
def prepaidCancelled : List (Invocation demoHouse EscrowCall) := prepaidSetup ++
  [demoInvoke 20 true (.billing (.subscribe demoSubscriber "pro" none none)),
    demoInvoke 120 true (.billing (.chargeBatch [(demoSubscriber, "pro"), (demoProvider, "pro")])),
    demoInvoke 121 true (.billing (.cancel demoSubscriber "basic"))]

theorem escrow_holds_demo : EscrowHolds demoLedger prepaidCancelled ∧
    (runEscrow State.empty prepaidCancelled).transfers =
      [⟨.prepay "basic", demoToken, demoSubscriber, demoHouse, 100⟩,
        ⟨.charge "pro", demoToken, demoSubscriber, demoProvider, 80⟩,
        ⟨.refund "basic", demoToken, demoHouse, demoSubscriber, 100⟩] :=
  ⟨escrow_holds (fun token => by simp [demoLedger, demoHouse, demoSubscriber]) prepaidCancelled
    (by decide +kernel), by decide +kernel⟩

end SorobanKit.Subscription
