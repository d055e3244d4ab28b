import SorobanKit.SubscriptionMoves

set_option autoImplicit false

/-!
# Billing

The journal of a run is read pair by pair: what was agreed, when the last charge succeeded, which
attempts have failed since. A note is lawful when what was written before it allows it, and the
contract only writes lawful notes. Its ledger sums stop at the largest `u32`, but no call returns in
the last ledgers, where that could be seen.
-/
namespace SorobanKit.Subscription
open HostBalances HostInteger HostInvocation HostTransfers
open HostRuns (Entry history_invariant_timed)

/-- What the journal says of one pair. `terms` is there while the subscription runs, and `failures`
    are the ledgers of the attempts that failed since the last success. -/
structure Billing where
  terms : Option Terms := none
  since : ℕ := 0
  chargedAt : Option ℕ := none
  failures : List ℕ := []
  suspended : Bool := false
  deriving DecidableEq, Repr

def Act.pair : Act → Option Pair
  | .graceSet _ => none
  | .subscribed pair _ => some pair
  | .charged pair _ => some pair
  | .failed pair => some pair
  | .suspended pair => some pair
  | .cancelled pair => some pair

def Billing.act (b : Billing) (ledger : ℕ) : Act → Billing
  | .graceSet _ => b
  | .subscribed _ terms =>
    { b with terms := some terms, since := ledger, failures := [], suspended := false }
  | .charged _ _ => { b with chargedAt := some ledger, failures := [] }
  | .failed _ => { b with failures := b.failures ++ [ledger] }
  | .suspended _ => { b with terms := none, failures := b.failures ++ [ledger], suspended := true }
  | .cancelled _ => { b with terms := none }

def Billing.next (pair : Pair) (b : Billing) (x : Note) : Billing :=
  if x.act.pair = some pair then b.act x.ledger x.act else b

def billing (pair : Pair) (journal : List Note) : Billing := journal.foldl (Billing.next pair) {}

/-- The grace period in force. -/
def graceOf (journal : List Note) : ℕ :=
  journal.foldl (fun grace x => match x.act with
    | .graceSet gracePeriodLedgers => gracePeriodLedgers
    | _ => grace) defaultGracePeriodLedgers

/-- A charge takes what was agreed, after the trial and an interval after the last one. A suspension
    is a failed attempt, the grace period after the first failed one. Nothing but a new subscription
    happens to a pair that has none. -/
def Lawful (past : List Note) (x : Note) : Prop :=
  match x.act with
  | .graceSet _ => True
  | .subscribed pair _ => (billing pair past).terms = none
  | .charged pair amount => ∃ terms ∈ (billing pair past).terms, amount = terms.amount ∧
      (billing pair past).since + terms.trialLedgers ≤ x.ledger ∧
      ∀ last ∈ (billing pair past).chargedAt, last + terms.intervalLedgers ≤ x.ledger
  | .failed pair => (billing pair past).terms.isSome
  | .suspended pair => (billing pair past).terms.isSome ∧
      (billing pair past).failures.headD x.ledger + graceOf past ≤ x.ledger
  | .cancelled pair => (billing pair past).terms.isSome

def LawfulJournal (journal : List Note) : Prop :=
  ∀ past x later, journal = past ++ x :: later → Lawful past x

/-- The charges among the transfers and among the notes. -/
def chargeOf (x : Transfer Purpose) : Option (Pair × ℤ) :=
  match x.purpose with
  | .charge planId => some ((x.source, planId), x.amount)
  | _ => none

def chargedOf (x : Note) : Option (Pair × ℤ) :=
  match x.act with
  | .charged pair amount => some (pair, amount)
  | _ => none

theorem billing_append (pair : Pair) (journal : List Note) (x : Note) :
    billing pair (journal ++ [x]) = (billing pair journal).next pair x := by
  rw [billing, List.foldl_append]
  rfl

theorem graceOf_append {journal : List Note} {x : Note} {pair : Pair} (h : x.act.pair = some pair) :
    graceOf (journal ++ [x]) = graceOf journal := by
  rw [graceOf, List.foldl_append, List.foldl_cons, List.foldl_nil]
  cases hact : x.act with
  | graceSet n =>
    rw [hact] at h
    cases h
  | _ => rfl

theorem LawfulJournal.append {journal : List Note} {x : Note} (h : LawfulJournal journal)
    (hx : Lawful journal x) : LawfulJournal (journal ++ [x]) := by
  intro past y later heq
  rcases List.eq_nil_or_concat' later with rfl | ⟨later, last, rfl⟩
  · obtain ⟨rfl, hlast⟩ := List.append_inj' heq rfl
    cases hlast
    exact hx
  · rw [← List.cons_append, ← List.append_assoc] at heq
    exact h past y later (List.append_inj' heq rfl).1

variable {house provider token : Address} {env : Env} {s t : State} {pair : Pair} {now : ℕ}
  {info : SubscriptionInfo}

/-- A record and what the journal says of its pair. -/
structure RecordMatches (now : ℕ) (b : Billing) (info : SubscriptionInfo) : Prop where
  terms_eq : b.terms = if info.active then
    some ⟨info.amount, info.intervalLedgers, info.trialLedgers⟩ else none
  suspended_eq : info.suspended = b.suspended
  count_eq : info.failedChargesCount = b.failures.length
  delinquent_eq : info.delinquentSinceLedger = b.failures.head?
  charged_past : ∀ last ∈ b.chargedAt, last ≤ now
  trial_over : info.trialCompleted = true →
    b.since + info.trialLedgers ≤ info.lastChargedLedger ∧
      ∀ last ∈ b.chargedAt, last ≤ info.lastChargedLedger
  in_trial : info.trialCompleted = false → b.since = info.lastChargedLedger

def Matches (now : ℕ) (b : Billing) : Option SubscriptionInfo → Prop
  | none => b = {}
  | some info => RecordMatches now b info

structure Tracked (now : ℕ) (s : State) : Prop where
  plan_eq : ∀ pair info, s.subscriptions.lookup pair = some info → info.planId = pair.2
  recorded : ∀ pair, Matches now (billing pair s.journal) (s.subscriptions.lookup pair)
  grace_eq : gracePeriod s = graceOf s.journal
  lawful : LawfulJournal s.journal
  agreed : ∀ x ∈ s.journal, ∀ pair terms, x.act = .subscribed pair terms →
    ∃ plan ∈ s.plans.lookup pair.2, terms.amount = plan.amount ∧
      terms.intervalLedgers = plan.intervalLedgers
  paid : s.transfers.filterMap chargeOf = s.journal.filterMap chargedOf

theorem Tracked.empty (now : ℕ) : Tracked now State.empty where
  plan_eq pair info h := by simp [State.empty] at h
  recorded pair := by simp [State.empty, billing, Matches]
  grace_eq := rfl
  lawful past x later h := by simp [State.empty] at h
  agreed x hx := by simp [State.empty] at hx
  paid := rfl

theorem RecordMatches.advance {b : Billing} {next : ℕ} (h : RecordMatches now b info)
    (hle : now ≤ next) : RecordMatches next b info :=
  { h with charged_past := fun last hlast => le_trans (h.charged_past last hlast) hle }

theorem Tracked.advance {next : ℕ} (hs : Tracked now s) (hle : now ≤ next) : Tracked next s := by
  refine { hs with recorded := fun pair => ?_ }
  have h := hs.recorded pair
  cases hlookup : s.subscriptions.lookup pair with
  | none =>
    rw [hlookup] at h
    exact h
  | some info =>
    rw [hlookup] at h
    exact RecordMatches.advance h hle

theorem Billing.next_other {b : Billing} {x : Note} {other : Pair} (h : x.act.pair = some pair)
    (hne : other ≠ pair) : b.next other x = b := by
  rw [Billing.next, h, if_neg fun heq => hne (Option.some_inj.mp heq).symm]

theorem Billing.next_self {b : Billing} {x : Note} (h : x.act.pair = some pair) :
    b.next pair x = b.act x.ledger x.act := if_pos h

/-- One record is replaced, and the journal says why. -/
theorem Tracked.noted (hs : Tracked now s) (pair : Pair) {x : Note}
    (hsubs : t.subscriptions = s.subscriptions.insert pair info)
    (hjournal : t.journal = s.journal ++ [x]) (hplans : t.plans = s.plans)
    (hgrace : t.gracePeriod = s.gracePeriod) (hpair : x.act.pair = some pair)
    (hplan : info.planId = pair.2)
    (hmatch : RecordMatches now ((billing pair s.journal).act x.ledger x.act) info)
    (hlawful : Lawful s.journal x)
    (hagreed : ∀ terms, x.act = .subscribed pair terms → ∃ plan ∈ s.plans.lookup pair.2,
      terms.amount = plan.amount ∧ terms.intervalLedgers = plan.intervalLedgers)
    (hpaid : t.transfers.filterMap chargeOf =
      s.transfers.filterMap chargeOf ++ [x].filterMap chargedOf) : Tracked now t where
  plan_eq other record h := by
    rw [hsubs, lookup_insert_ite] at h
    split at h
    · next heq =>
      cases h
      rw [hplan, heq]
    · exact hs.plan_eq other record h
  recorded other := by
    rw [hsubs, hjournal, billing_append, lookup_insert_ite]
    split
    · next heq =>
      rw [heq, Billing.next_self hpair]
      exact hmatch
    · next hne =>
      rw [Billing.next_other hpair hne]
      exact hs.recorded other
  grace_eq := by
    rw [hjournal, graceOf_append hpair, ← hs.grace_eq, gracePeriod, hgrace, gracePeriod]
  lawful := by
    rw [hjournal]
    exact hs.lawful.append hlawful
  agreed y hy other terms hact := by
    rw [hplans]
    rw [hjournal] at hy
    rcases List.mem_append.mp hy with hy | hy
    · exact hs.agreed y hy other terms hact
    · obtain rfl := List.mem_singleton.mp hy
      obtain rfl : other = pair := by
        rw [hact] at hpair
        exact Option.some_inj.mp hpair
      exact hagreed terms hact
  paid := by rw [hpaid, hjournal, List.filterMap_append, hs.paid]

/-- One record is replaced without a note. -/
theorem Tracked.silent (hs : Tracked now s) (hplan : info.planId = pair.2)
    (hmatch : RecordMatches now (billing pair s.journal) info) :
    Tracked now { s with subscriptions := s.subscriptions.insert pair info } := by
  refine { hs with plan_eq := fun other record h => ?_, recorded := fun other => ?_ }
  · rw [lookup_insert_ite] at h
    split at h
    · next heq =>
      cases h
      rw [hplan, heq]
    · exact hs.plan_eq other record h
  · rw [lookup_insert_ite]
    split
    · next heq =>
      rw [heq]
      exact hmatch
    · exact hs.recorded other

/-- A note that only sets the grace period. -/
theorem Tracked.graceSet (hs : Tracked env.sequence s) (gracePeriodLedgers : ℕ)
    (hsubs : t.subscriptions = s.subscriptions) (hplans : t.plans = s.plans)
    (hjournal : t.journal = s.journal ++ [⟨env.sequence, .graceSet gracePeriodLedgers⟩])
    (hgrace : t.gracePeriod = some gracePeriodLedgers) (htransfers : t.transfers = s.transfers) :
    Tracked env.sequence t where
  plan_eq := by
    rw [hsubs]
    exact hs.plan_eq
  recorded pair := by
    rw [hjournal, hsubs, billing_append, Billing.next, if_neg (by simp [Act.pair])]
    exact hs.recorded pair
  grace_eq := by
    rw [hjournal, graceOf, List.foldl_append, gracePeriod, hgrace]
    rfl
  lawful := by
    rw [hjournal]
    exact hs.lawful.append trivial
  agreed y hy pair terms hact := by
    rw [hjournal] at hy
    rw [hplans]
    rcases List.mem_append.mp hy with hy | hy
    · exact hs.agreed y hy pair terms hact
    · obtain rfl := List.mem_singleton.mp hy
      cases hact
  paid := by
    rw [htransfers, hjournal, List.filterMap_append, hs.paid]
    exact (List.append_nil _).symm

/-- Plans keep their amounts and intervals. -/
theorem Tracked.planned (hs : Tracked now s) {plans : Finmap (fun _ : Symbol => Plan)}
    (h : ∀ planId, ∀ plan ∈ s.plans.lookup planId, ∃ next ∈ plans.lookup planId,
      next.amount = plan.amount ∧ next.intervalLedgers = plan.intervalLedgers) :
    Tracked now { s with plans := plans } := by
  refine { hs with agreed := fun x hx pair terms hact => ?_ }
  obtain ⟨plan, hplan, hamount, hinterval⟩ := hs.agreed x hx pair terms hact
  obtain ⟨next, hnext, hsame, hlong⟩ := h pair.2 plan hplan
  exact ⟨next, hnext, hamount.trans hsame.symm, hinterval.trans hlong.symm⟩

/-- How many charges a call attempts. -/
def BillingCall.attempts : BillingCall → ℕ
  | .charge _ _ => 1
  | .chargeBatch pairs => pairs.length
  | _ => 0

def demoHouse : Address := ⟨0⟩
def demoProvider : Address := ⟨1⟩
def demoSubscriber : Address := ⟨2⟩
def demoToken : Address := ⟨3⟩
def demoPair : Pair := (demoSubscriber, "basic")

/-- Transfers return as long as `funded`. -/
def demoInvoke {κ : Type} (sequence : ℕ) (funded : Bool) (call : κ) : Invocation demoHouse κ where
  sequence := sequence
  auths := [demoProvider, demoSubscriber]
  tokens := { balance := fun _ _ => 0, accepts := fun _ _ => funded, responds := fun _ => true }
  call := call
  outside := by decide

end SorobanKit.Subscription
