import SorobanKit.HostBalances
import SorobanKit.OracleContract

set_option autoImplicit false

/-!
# The circuit breaker

Two things go wrong with it. The products that an update compares saturate, so a large move from a
large price looks small; and the pause is written by the very update that fails, so the host drops
it and no feed is ever paused.
-/
namespace SorobanKit.Oracle
open HostBalances HostInteger HostInvocation
open HostRuns (Attempt attempts_mem)

variable {env : Env} {s t : State} {i : Invocation} {asset : Symbol} {price previous next : ℤ}
  {decimals bps : ℕ}

/-- The largest `i128`. -/
def i128Max : ℤ := 170141183460469231731687303715884105727

theorem exceedsDeviation_iff (hprevious : 0 < previous) (hnext : 0 < next) (hprev : InI128 previous)
    (hfits : InI128 next) : exceedsDeviation previous next bps = true ↔
      bps ≠ 0 ∧ previous * bps < i128Max ∧ previous * bps < |next - previous| * 10000 := by
  unfold InI128 at hprev hfits
  have hsub : saturatingSub next previous = next - previous :=
    saturate_of_inI128 ⟨by omega, by omega⟩
  have hbound : 0 ≤ previous * bps := Int.mul_nonneg hprevious.le (Int.natCast_nonneg bps)
  have hmove : 0 ≤ |next - previous| * 10000 := Int.mul_nonneg (abs_nonneg _) (by decide)
  unfold exceedsDeviation saturatingMul
  rw [hsub]
  dsimp only
  rw [saturate_of_nonneg hbound, saturate_of_nonneg hmove]
  unfold i128Max
  by_cases hzero : bps = 0
  · simp [hzero]
  · rw [if_neg (by omega), decide_eq_true_eq]
    omega

def Updates (i : Invocation) (asset : Symbol) (price : ℤ) : Prop :=
  match i.call with
  | .updateAssetPrice asset' price' _ => asset' = asset ∧ price'.val = price
  | .updatePriceFor asset' price' => asset' = asset ∧ price'.val = price
  | _ => False

def Signed (i : Invocation) (s : State) : Prop := ∃ admin ∈ s.admin, admin ∈ i.auths

/-- The admin signed a positive price. -/
structure Pushes (i : Invocation) (asset : Symbol) (price : ℤ) (s : State) : Prop where
  updates : Updates i asset price
  signed : Signed i s
  positive : 0 < price

theorem Updates.fits (h : Updates i asset price) : InI128 price := by
  unfold Updates at h
  split at h
  · next price' _ _ => exact h.2 ▸ price'.property
  · next price' _ => exact h.2 ▸ price'.property
  · exact h.elim

theorem Updates.exec_eq (h : Updates i asset price) (s : State) :
    ∃ decimals, exec i s = commit (updateAssetPrice i.toEnv asset price decimals s) := by
  unfold Updates at h
  unfold exec
  split at h
  · next hcall =>
    obtain ⟨rfl, rfl⟩ := h
    exact ⟨_, by rw [hcall]⟩
  · next hcall =>
    obtain ⟨rfl, rfl⟩ := h
    exact ⟨_, by rw [hcall]; rfl⟩
  · exact h.elim

theorem requireAdmin_eq_ok : requireAdmin i.toEnv s = .ok () ↔ Signed i s := by
  simp only [requireAdmin, bind_eq_ok, okOr_eq_ok, requireAuth_eq_ok]
  rfl

theorem checkUpdate_eq_ok : checkUpdate i.toEnv asset price s = .ok () ↔
    Signed i s ∧ 0 < price ∧ feedPaused asset s = false := by
  simp only [checkUpdate, bind_eq_ok, rejectIf_eq_ok, not_le, Bool.not_eq_true]
  constructor
  · rintro ⟨_, hadmin, _, h⟩
    exact ⟨requireAdmin_eq_ok.mp hadmin, h⟩
  · rintro ⟨hsigned, h⟩
    exact ⟨(), requireAdmin_eq_ok.mpr hsigned, (), h⟩

theorem checkUpdate_ne_deviation :
    checkUpdate env asset price s ≠ .error (.error .priceDeviationTooHigh) := by
  intro h
  simp [checkUpdate, requireAdmin, bind_eq_error, rejectIf_eq_error, okOr_eq_error,
    requireAuth_eq_error] at h

structure Stored (i : Invocation) (asset : Symbol) (price : ℤ) (s t : State) : Prop where
  pushes : Pushes i asset price s
  quiet : tripsBreaker asset price s = false
  result : ∃ decimals, t = storeAssetPrice i.toEnv asset price decimals s

/-- An update stores its price, trips the breaker, or does not come as far as the breaker. -/
theorem Updates.outcome (h : Updates i asset price) (s : State) :
    (∃ t, exec i s = .ok t ∧ Stored i asset price s t) ∨
    (exec i s = .error (.error .priceDeviationTooHigh) ∧ Pushes i asset price s ∧
      tripsBreaker asset price s = true) ∨
    ∃ e, exec i s = .error e ∧ e ≠ .error .priceDeviationTooHigh ∧
      ¬ (Pushes i asset price s ∧ feedPaused asset s = false) := by
  obtain ⟨decimals, hexec⟩ := h.exec_eq s
  rw [hexec, updateAssetPrice]
  cases hcheck : checkUpdate i.toEnv asset price s with
  | error e =>
    refine .inr (.inr ⟨e, commit_error s e, ?_, ?_⟩)
    · rintro rfl
      exact checkUpdate_ne_deviation hcheck
    · rintro ⟨hpush, hopen⟩
      have hok := checkUpdate_eq_ok.mpr ⟨hpush.signed, hpush.positive, hopen⟩
      rw [hcheck] at hok
      cases hok
  | ok u =>
    obtain ⟨hsigned, hpositive, _⟩ := checkUpdate_eq_ok.mp hcheck
    have hpush : Pushes i asset price s := ⟨h, hsigned, hpositive⟩
    dsimp only
    cases htrips : tripsBreaker asset price s with
    | true =>
      rw [if_pos rfl]
      exact .inr (.inl ⟨commit_error _ _, hpush, rfl⟩)
    | false =>
      rw [if_neg (by decide)]
      exact .inl ⟨_, commit_ok _, hpush, htrips, decimals, rfl⟩

/-- A call that returned stored a price, opened a feed, or left prices and flags alone. -/
theorem exec_ok (h : exec i s = .ok t) : (∃ asset price, Stored i asset price s t) ∨
    t.assetPrice = s.assetPrice ∧
      (t.feedPaused = s.feedPaused ∨ ∃ asset, t.feedPaused = s.feedPaused.insert asset false) := by
  have hupdate : ∀ asset price, Updates i asset price → ∃ asset price, Stored i asset price s t := by
    intro asset price hupdates
    rcases hupdates.outcome s with ⟨u, hu, hstored⟩ | ⟨hfail, _⟩ | ⟨e, hfail, _⟩
    · rw [h] at hu
      cases hu
      exact ⟨asset, price, hstored⟩
    · rw [h] at hfail
      cases hfail
    · rw [h] at hfail
      cases hfail
  cases hcall : i.call with
  | initializeOracle admin stalenessThreshold =>
    simp only [exec, hcall, initializeOracle, bind_eq_ok, pure_eq_ok] at h
    obtain ⟨_, _, _, _, _, _, rfl⟩ := h
    exact .inr ⟨rfl, .inl rfl⟩
  | configureAssetFeed asset decimals description =>
    simp only [exec, hcall, configureAssetFeed, bind_eq_ok, pure_eq_ok] at h
    obtain ⟨_, _, rfl⟩ := h
    exact .inr ⟨rfl, .inl rfl⟩
  | updateAssetPrice asset price decimals =>
    exact .inl (hupdate asset price.val (by simp [Updates, hcall]))
  | updatePriceFor asset price =>
    exact .inl (hupdate asset price.val (by simp [Updates, hcall]))
  | setMaxDeviationBps maxDeviationBps =>
    simp only [exec, hcall, setMaxDeviationBps, bind_eq_ok, pure_eq_ok] at h
    obtain ⟨_, _, _, _, rfl⟩ := h
    exact .inr ⟨rfl, .inl rfl⟩
  | unpauseFeed asset =>
    simp only [exec, hcall, unpauseFeed, bind_eq_ok, pure_eq_ok] at h
    obtain ⟨_, _, rfl⟩ := h
    exact .inr ⟨rfl, .inr ⟨asset, rfl⟩⟩

/-- Prices are positive, and the flag that a tripped breaker wrote is gone. -/
structure Running (s : State) : Prop where
  positive : ∀ asset, ∀ stored ∈ s.assetPrice.lookup asset, 0 < stored.1 ∧ InI128 stored.1
  unpaused : ∀ asset, feedPaused asset s = false

theorem running_empty : Running {} where
  positive asset stored h := by
    rw [Finmap.lookup_empty] at h
    cases h
  unpaused asset := by
    unfold feedPaused
    rw [Finmap.lookup_empty]
    rfl

@[simp] theorem storeAssetPrice_assetPrice (s : State) :
    (storeAssetPrice env asset price decimals s).assetPrice =
      s.assetPrice.insert asset (price, env.sequence) := rfl

@[simp] theorem feedPaused_storeAssetPrice (s : State) (other : Symbol) :
    feedPaused other (storeAssetPrice env asset price decimals s) = feedPaused other s := rfl

theorem running_exec (hs : Running s) (h : exec i s = .ok t) : Running t := by
  rcases exec_ok h with ⟨asset, price, hstored⟩ | ⟨hprice, hpaused⟩
  · obtain ⟨decimals, rfl⟩ := hstored.result
    refine ⟨fun other stored hlook => ?_, fun other => ?_⟩
    · rw [storeAssetPrice_assetPrice, lookup_insert_ite] at hlook
      split at hlook
      · cases hlook
        exact ⟨hstored.pushes.positive, hstored.pushes.updates.fits⟩
      · exact hs.positive other stored hlook
    · rw [feedPaused_storeAssetPrice]
      exact hs.unpaused other
  · refine ⟨fun other stored hlook => ?_, fun other => ?_⟩
    · rw [hprice] at hlook
      exact hs.positive other stored hlook
    have hother := hs.unpaused other
    unfold feedPaused at hother ⊢
    rcases hpaused with heq | ⟨asset, heq⟩
    · rw [heq]
      exact hother
    · rw [heq, lookup_insert_ite]
      split
      · rfl
      · exact hother

theorem Updates.outcome_running (h : Updates i asset price) (hs : Running s) :
    (∃ t, exec i s = .ok t ∧ Stored i asset price s t) ∨
    (exec i s = .error (.error .priceDeviationTooHigh) ∧ Pushes i asset price s ∧
      tripsBreaker asset price s = true) ∨
    ∃ e, exec i s = .error e ∧ e ≠ .error .priceDeviationTooHigh ∧ ¬ Pushes i asset price s := by
  rcases h.outcome s with hstored | htrips | ⟨e, hfail, hne, hpush⟩
  · exact .inl hstored
  · exact .inr (.inl htrips)
  · exact .inr (.inr ⟨e, hfail, hne, fun h => hpush ⟨h, hs.unpaused asset⟩⟩)

/-- An attempt at a call on the oracle. -/
abbrev Try := Attempt State Invocation (Failure OracleError)

def inForce (s : State) : ℤ := (s.maxDeviationBps.getD 0 : ℕ)

/-- Two stored prices, one right after the other. -/
def Moderate (s t : State) : Prop :=
  ∀ asset, ∀ p ∈ s.assetPrice.lookup asset, ∀ q ∈ t.assetPrice.lookup asset, 0 < inForce s →
    |q.1 - p.1| * 10000 ≤ p.1 * inForce s

def Try.Rejected (a : Try) (asset : Symbol) : Prop :=
  (∃ price, Updates a.invocation asset price) ∧
    a.outcome = .error (.error .priceDeviationTooHigh)

def Try.Accepted (a : Try) (asset : Symbol) : Prop :=
  (∃ price, Updates a.invocation asset price) ∧ ∃ t, a.outcome = .ok t

def Try.Unpaused (a : Try) (asset : Symbol) : Prop :=
  a.invocation.call = .unpauseFeed asset ∧ ∃ t, a.outcome = .ok t

/-- Stored prices move as far as is in force, and a rejected move stops the feed. -/
structure BreakerLaw (all : List Try) : Prop where
  moderate : ∀ a ∈ all, ∀ t, a.outcome = .ok t → Moderate a.before t
  stops : ∀ past a mid c later asset, all = past ++ a :: (mid ++ c :: later) → a.Rejected asset →
    (∀ m ∈ mid, ¬ m.Unpaused asset) → ¬ c.Accepted asset

/-- The conditions on the calls: a large threshold product is not overshot, and between a push that
    trips the breaker and the next `unpauseFeed` all pushes trip it. -/
structure BreakerCare (all : List Try) : Prop where
  exact : ∀ a ∈ all, ∀ asset price, Pushes a.invocation asset price a.before →
    ∀ p ∈ a.before.assetPrice.lookup asset, i128Max ≤ p.1 * inForce a.before →
      |price - p.1| * 10000 ≤ p.1 * inForce a.before
  trips : ∀ past a mid c later asset, all = past ++ a :: (mid ++ c :: later) →
    (∃ price, Pushes a.invocation asset price a.before ∧ tripsBreaker asset price a.before = true) →
    (∀ m ∈ mid, m.invocation.call = .unpauseFeed asset → ¬ Signed m.invocation m.before) →
    ∀ price, Pushes c.invocation asset price c.before → tripsBreaker asset price c.before = true

theorem unpaused_iff {a : Try} (houtcome : a.outcome = exec a.invocation a.before)
    (hcall : a.invocation.call = .unpauseFeed asset) :
    a.Unpaused asset ↔ Signed a.invocation a.before := by
  unfold Try.Unpaused
  rw [houtcome, ← requireAdmin_eq_ok]
  simp only [hcall, true_and, exec, unpauseFeed, bind_eq_ok, pure_eq_ok]
  constructor
  · rintro ⟨t, _, hadmin, rfl⟩
    exact hadmin
  · intro hadmin
    exact ⟨_, (), hadmin, rfl⟩

theorem rejected_iff {a : Try} (hs : Running a.before)
    (houtcome : a.outcome = exec a.invocation a.before) : a.Rejected asset ↔
      ∃ price, Pushes a.invocation asset price a.before ∧ tripsBreaker asset price a.before = true := by
  unfold Try.Rejected
  rw [houtcome]
  constructor
  · rintro ⟨⟨price, hupdates⟩, hfail⟩
    rcases hupdates.outcome_running hs with ⟨t, hok, _⟩ | ⟨_, htrips⟩ | ⟨e, hother, hne, _⟩
    · rw [hok] at hfail
      cases hfail
    · exact ⟨price, htrips⟩
    · rw [hother] at hfail
      cases hfail
      exact absurd rfl hne
  · rintro ⟨price, hpush, htrips⟩
    refine ⟨⟨price, hpush.updates⟩, ?_⟩
    rcases hpush.updates.outcome_running hs with ⟨t, _, hstored⟩ | ⟨hfail, _⟩ | ⟨e, _, _, hno⟩
    · rw [hstored.quiet] at htrips
      cases htrips
    · exact hfail
    · exact absurd hpush hno

theorem accepted_iff {a : Try} (hs : Running a.before)
    (houtcome : a.outcome = exec a.invocation a.before) : a.Accepted asset ↔
      ∃ price, Pushes a.invocation asset price a.before ∧
        tripsBreaker asset price a.before = false := by
  unfold Try.Accepted
  rw [houtcome]
  constructor
  · rintro ⟨⟨price, hupdates⟩, t, hok⟩
    rcases hupdates.outcome_running hs with ⟨u, _, hstored⟩ | ⟨hfail, _⟩ | ⟨e, hfail, _⟩
    · exact ⟨price, hstored.pushes, hstored.quiet⟩
    · rw [hok] at hfail
      cases hfail
    · rw [hok] at hfail
      cases hfail
  · rintro ⟨price, hpush, hquiet⟩
    refine ⟨⟨price, hpush.updates⟩, ?_⟩
    rcases hpush.updates.outcome_running hs with ⟨t, hok, _⟩ | ⟨_, _, htrips⟩ | ⟨e, _, _, hno⟩
    · exact ⟨t, hok⟩
    · rw [hquiet] at htrips
      cases htrips
    · exact absurd hpush hno

theorem tripsBreaker_iff (hs : Running s) {p : ℤ × ℕ} (hp : p ∈ s.assetPrice.lookup asset)
    (hprice : 0 < price) (hfits : InI128 price) : tripsBreaker asset price s = true ↔
      inForce s ≠ 0 ∧ p.1 * inForce s < i128Max ∧ p.1 * inForce s < |price - p.1| * 10000 := by
  obtain ⟨hpositive, hpfits⟩ := hs.positive asset p hp
  have htrips : tripsBreaker asset price s =
      exceedsDeviation p.1 price (s.maxDeviationBps.getD 0) := by
    unfold tripsBreaker
    rw [Option.mem_def.mp hp]
  rw [htrips, exceedsDeviation_iff hpositive hprice hpfits hfits]
  unfold inForce
  rw [Ne, Ne, Int.natCast_eq_zero]

theorem moderate_self (hs : Running s) {p : ℤ × ℕ} (hp : p ∈ s.assetPrice.lookup asset) :
    |p.1 - p.1| * 10000 ≤ p.1 * inForce s := by
  rw [sub_self, abs_zero, zero_mul]
  exact Int.mul_nonneg (hs.positive asset p hp).1.le (Int.natCast_nonneg _)

theorem moderate_iff {a : Try} (hs : Running a.before)
    (houtcome : a.outcome = exec a.invocation a.before) :
    (∀ t, a.outcome = .ok t → Moderate a.before t) ↔
      ∀ asset price, Pushes a.invocation asset price a.before →
        ∀ p ∈ a.before.assetPrice.lookup asset, i128Max ≤ p.1 * inForce a.before →
          |price - p.1| * 10000 ≤ p.1 * inForce a.before := by
  constructor
  · intro hmoderate asset price hpush p hp hlarge
    have hforce : 0 < inForce a.before := by
      have hnonneg : 0 ≤ inForce a.before := Int.natCast_nonneg _
      by_contra hzero
      rw [show inForce a.before = 0 by omega, mul_zero] at hlarge
      exact absurd hlarge (by decide)
    rcases hpush.updates.outcome_running hs with ⟨t, hok, hstored⟩ | ⟨_, _, htrips⟩ | ⟨e, _, _, hno⟩
    · obtain ⟨decimals, rfl⟩ := hstored.result
      refine hmoderate _ (houtcome.trans hok) asset p hp (price, a.invocation.sequence) ?_ hforce
      rw [storeAssetPrice_assetPrice, Finmap.lookup_insert]
      rfl
    · have hsmall := (tripsBreaker_iff hs hp hpush.positive hpush.updates.fits).mp htrips
      omega
    · exact absurd hpush hno
  · intro hexact t hok asset p hp q hq hforce
    rw [houtcome] at hok
    rcases exec_ok hok with ⟨asset', price, hstored⟩ | ⟨hprice, _⟩
    · have hpush := hstored.pushes
      obtain ⟨decimals, rfl⟩ := hstored.result
      rw [storeAssetPrice_assetPrice, lookup_insert_ite] at hq
      split at hq
      · next hsame =>
        subst hsame
        cases hq
        have hquiet := hstored.quiet
        rw [← Bool.not_eq_true, tripsBreaker_iff hs hp hpush.positive hpush.updates.fits] at hquiet
        by_cases hlarge : i128Max ≤ p.1 * inForce a.before
        · exact hexact asset price hpush p hp hlarge
        · by_contra hover
          exact hquiet ⟨hforce.ne', not_le.mp hlarge, not_le.mp hover⟩
      · rw [Option.mem_unique hq hp]
        exact moderate_self hs hp
    · rw [hprice] at hq
      rw [Option.mem_unique hq hp]
      exact moderate_self hs hp

theorem stops_iff {all past mid later : List Try} {a c : Try}
    (hattempt : ∀ a ∈ all, Running a.before ∧ a.outcome = exec a.invocation a.before)
    (hall : all = past ++ a :: (mid ++ c :: later)) :
    (a.Rejected asset → (∀ m ∈ mid, ¬ m.Unpaused asset) → ¬ c.Accepted asset) ↔
      ((∃ price, Pushes a.invocation asset price a.before ∧ tripsBreaker asset price a.before = true) →
        (∀ m ∈ mid, m.invocation.call = .unpauseFeed asset → ¬ Signed m.invocation m.before) →
        ∀ price, Pushes c.invocation asset price c.before →
          tripsBreaker asset price c.before = true) := by
  obtain ⟨ha, haout⟩ := hattempt a (by rw [hall]; simp)
  obtain ⟨hc, hcout⟩ := hattempt c (by rw [hall]; simp)
  have hmid : (∀ m ∈ mid, ¬ m.Unpaused asset) ↔
      ∀ m ∈ mid, m.invocation.call = .unpauseFeed asset → ¬ Signed m.invocation m.before := by
    refine forall₂_congr fun m hm => ?_
    have hmout := (hattempt m (by rw [hall]; simp [hm])).2
    constructor
    · intro hpaused hcall hsigned
      exact hpaused ((unpaused_iff hmout hcall).mpr hsigned)
    · intro hunsigned hunpaused
      exact hunsigned hunpaused.1 ((unpaused_iff hmout hunpaused.1).mp hunpaused)
  have hlater : ¬ c.Accepted asset ↔ ∀ price, Pushes c.invocation asset price c.before →
      tripsBreaker asset price c.before = true := by
    rw [accepted_iff hc hcout]
    push Not
    simp only [Bool.not_eq_false]
  rw [rejected_iff ha haout, hmid, hlater]

theorem breaker_law_iff (is : List Invocation) :
    BreakerLaw (attempts is) ↔ BreakerCare (attempts is) := by
  have hattempt : ∀ a ∈ attempts is, Running a.before ∧ a.outcome = exec a.invocation a.before :=
    fun a ha => attempts_mem (I := Running)
      (fun s i t (hs : Running s) (h : exec i s = .ok t) => running_exec hs h) running_empty ha
  constructor
  · intro hlaw
    refine ⟨fun a ha => ?_, fun past a mid c later asset hall => ?_⟩
    · obtain ⟨hs, houtcome⟩ := hattempt a ha
      exact (moderate_iff hs houtcome).mp (hlaw.moderate a ha)
    · exact (stops_iff hattempt hall).mp (hlaw.stops past a mid c later asset hall)
  · intro hcare
    refine ⟨fun a ha => ?_, fun past a mid c later asset hall => ?_⟩
    · obtain ⟨hs, houtcome⟩ := hattempt a ha
      exact (moderate_iff hs houtcome).mpr (hcare.exact a ha)
    · exact (stops_iff hattempt hall).mpr (hcare.trips past a mid c later asset hall)

def demoAdmin : Address := ⟨1⟩

def demoInvoke (sequence : ℕ) (call : Call) : Invocation where
  sequence := sequence
  auths := [demoAdmin]
  timestamp := 5 * sequence
  call := call

def demoPrice (price : ℤ) (h : InI128 price := by decide) : I128 := ⟨price, h⟩

/-- Ten percent may be moved at once. -/
def demoSetup : List Invocation :=
  [demoInvoke 1 (.initializeOracle demoAdmin 100), demoInvoke 1 (.setMaxDeviationBps 1000)]

/-- A price doubles, which fails, and is moved on as if nothing had happened. -/
def doubledPrice : List Invocation := demoSetup ++
  [demoInvoke 2 (.updateAssetPrice "XLM" (demoPrice 100) 7),
    demoInvoke 3 (.updatePriceFor "XLM" (demoPrice 200)),
    demoInvoke 4 (.updatePriceFor "XLM" (demoPrice 105))]

/-- A price that is large enough doubles and is stored. -/
def doubledLargePrice : List Invocation := demoSetup ++
  [demoInvoke 2 (.updateAssetPrice "BTC" (demoPrice 80000000000000000000000000000000000000) 7),
    demoInvoke 3 (.updatePriceFor "BTC" (demoPrice 160000000000000000000000000000000000000))]

theorem breaker_without_effect :
    ¬ BreakerLaw (attempts doubledPrice) ∧ ¬ BreakerLaw (attempts doubledLargePrice) := by
  constructor
  · intro hlaw
    let a := (attempts doubledPrice).get ⟨3, by decide⟩
    let c := (attempts doubledPrice).get ⟨4, by decide⟩
    have hall : attempts doubledPrice = (attempts doubledPrice).take 3 ++ a :: ([] ++ [c]) := rfl
    have hrejected : Try.Rejected a "XLM" := ⟨⟨200, rfl, rfl⟩, rfl⟩
    have haccepted : Try.Accepted c "XLM" := ⟨⟨105, rfl, rfl⟩, _, rfl⟩
    exact hlaw.stops _ a [] c [] "XLM" hall hrejected (by simp) haccepted
  · intro hlaw
    let a := (attempts doubledLargePrice).get ⟨3, by decide⟩
    have hmove := hlaw.moderate a (List.get_mem _ _) _ rfl "BTC"
      (80000000000000000000000000000000000000, 2) rfl
      (160000000000000000000000000000000000000, 3) rfl (by decide)
    exact absurd hmove (by decide)

end SorobanKit.Oracle
