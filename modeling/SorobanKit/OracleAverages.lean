import SorobanKit.HostMeans
import SorobanKit.OracleMerging

set_option autoImplicit false

/-!
# Averages of the oracle's history

The history is a window of observations with rising timestamps. The moving average takes a share of
the way to each price after the other, so it never leaves their range. The time-weighted average is a
quotient of sums that saturate, so it is the mean only as long as they do not.
-/
namespace SorobanKit.OraclePublishers
open HostInteger HostInvocation HostMeans
open Oracle (PriceObservation maxHistory)

/-- `BPS_DENOMINATOR` -/
def bpsDenominator : ℕ := 10000

/-- How long an observation holds: until the next one, or until now. -/
def nextTimestamp (now : ℕ) : List PriceObservation → ℕ
  | [] => now
  | next :: _ => next.timestamp

/-- The loop of `twap`, with the weighted sum and the total weight. -/
def twapLoop (now : ℕ) : List PriceObservation → ℤ × ℤ → ℤ × ℤ
  | [], sums => sums
  | obs :: rest, (weightedSum, totalWeight) =>
    if nextTimestamp now rest = obs.timestamp then twapLoop now rest (weightedSum, totalWeight)
    else
      let weight : ℤ := ↑(nextTimestamp now rest - obs.timestamp)
      twapLoop now rest
        (saturatingAdd weightedSum (saturatingMul obs.price weight), saturatingAdd totalWeight weight)

/-- The last price, for observations that are not empty. -/
def lastPrice (observations : List PriceObservation) : ℤ :=
  (observations.getLast?.map PriceObservation.price).getD 0

def twap (observations : List PriceObservation) (now : ℕ) : ℤ :=
  match observations with
  | [obs] => obs.price
  | _ =>
    let (weightedSum, totalWeight) := twapLoop now observations (0, 0)
    if totalWeight = 0 then lastPrice observations else weightedSum.tdiv totalWeight

def emaStep (smoothingBps : ℕ) (ema : ℤ) (obs : PriceObservation) : ℤ :=
  saturatingAdd ema ((saturatingMul (saturatingSub obs.price ema) smoothingBps).tdiv bpsDenominator)

/-- Only called with some observations. -/
def ema (observations : List PriceObservation) (smoothingBps : ℕ) : ℤ :=
  match observations with
  | [] => 0
  | obs :: rest => rest.foldl (emaStep smoothingBps) obs.price

def inWindow (env : Env) (window : ℕ) (s : State) : List PriceObservation :=
  let cutoff := env.timestamp - window
  s.history.filter fun obs => cutoff ≤ obs.timestamp

def getTwap (env : Env) (window : ℕ) (s : State) : Result FeedError ℤ := do
  rejectIf (inWindow env window s = []) .insufficientHistory
  return twap (inWindow env window s) env.timestamp

def getEma (smoothingBps : ℕ) (s : State) : Result FeedError ℤ := do
  rejectIf (smoothingBps = 0 ∨ bpsDenominator < smoothingBps) .invalidSmoothingFactor
  rejectIf (s.history = []) .insufficientHistory
  return ema s.history smoothingBps

section History
variable {history : List PriceObservation} {price : ℤ} {timestamp now : ℕ} {i : Invocation}
  {s t : State}

/-- At most `MAX_HISTORY` prices in range, of rising timestamps. -/
structure Ordered (history : List PriceObservation) : Prop where
  length : history.length ≤ maxHistory
  rising : history.Pairwise fun x y => x.timestamp < y.timestamp
  range : ∀ x ∈ history, InI128 x.price

theorem ordered_nil : Ordered [] := ⟨Nat.zero_le _, List.Pairwise.nil, fun _ hx => by cases hx⟩

theorem mergedPrice_inI128 {last : ℤ} : InI128 (mergedPrice last price) := by
  have hrange := saturate_inI128 (last + price)
  have hhalf := tdiv_two_bounds (saturate (last + price))
  unfold mergedPrice saturatingAdd
  unfold InI128 at hrange ⊢
  omega

theorem pushHistory_appends (hnew : ∀ last ∈ history.getLast?, last.timestamp ≠ timestamp) :
    pushHistory history price timestamp =
      (history ++ [(⟨price, timestamp⟩ : PriceObservation)]).drop
        (history.length + 1 - maxHistory) := by
  unfold pushHistory
  split
  · next last hlast =>
    rw [if_neg (hnew last hlast)]
    dsimp only
    rw [List.length_append, List.length_singleton]
  · next hnone =>
    rw [List.getLast?_eq_none_iff.mp hnone]
    rfl

/-- The history, and that it is not of a later time. -/
structure OrderedBy (now : ℕ) (history : List PriceObservation) : Prop extends Ordered history where
  past : ∀ x ∈ history, x.timestamp ≤ now

theorem OrderedBy.append (h : OrderedBy timestamp history) (hprice : InI128 price)
    (hless : ∀ x ∈ history, x.timestamp < timestamp) :
    OrderedBy timestamp ((history ++ [(⟨price, timestamp⟩ : PriceObservation)]).drop
      (history.length + 1 - maxHistory)) := by
  let latest : PriceObservation := ⟨price, timestamp⟩
  have hrising : (history ++ [latest]).Pairwise fun x y => x.timestamp < y.timestamp := by
    refine List.pairwise_append.mpr ⟨h.rising, List.pairwise_singleton _ _, fun x hx y hy => ?_⟩
    rw [List.mem_singleton.mp hy]
    exact hless x hx
  have hall : ∀ x ∈ history ++ [latest], InI128 x.price ∧ x.timestamp ≤ timestamp := by
    rw [List.forall_mem_append, List.forall_mem_singleton]
    exact ⟨fun x hx => ⟨h.range x hx, h.past x hx⟩, hprice, Nat.le_refl _⟩
  refine ⟨⟨?_, hrising.drop, fun x hx => (hall x (List.mem_of_mem_drop hx)).1⟩,
    fun x hx => (hall x (List.mem_of_mem_drop hx)).2⟩
  rw [List.length_drop, List.length_append, List.length_singleton]
  omega

/-- An observation is pushed, or replaces the one of its own timestamp. -/
theorem OrderedBy.push (h : OrderedBy timestamp history) (hprice : InI128 price) :
    OrderedBy timestamp (pushHistory history price timestamp) := by
  rcases List.eq_nil_or_concat history with rfl | ⟨older, last, rfl⟩
  · exact h.append hprice fun x hx => by cases hx
  rw [List.concat_eq_append] at h ⊢
  obtain ⟨hrising, _, hless⟩ := List.pairwise_append.mp h.rising
  have hlast := h.past last (List.mem_append_right _ (List.mem_singleton_self last))
  by_cases hsame : last.timestamp = timestamp
  · obtain ⟨price', timestamp'⟩ := last
    obtain rfl : timestamp' = timestamp := hsame
    rw [pushHistory_merges]
    refine ⟨⟨?_, ?_, ?_⟩, ?_⟩
    · have hlength := h.length
      rwa [List.length_append, List.length_singleton] at hlength ⊢
    · refine List.pairwise_append.mpr ⟨hrising, List.pairwise_singleton _ _, fun x hx y hy => ?_⟩
      rw [List.mem_singleton.mp hy]
      exact hless x hx ⟨price', timestamp'⟩ (List.mem_singleton_self _)
    · rw [List.forall_mem_append, List.forall_mem_singleton]
      exact ⟨fun x hx => h.range x (List.mem_append_left _ hx), mergedPrice_inI128⟩
    · rw [List.forall_mem_append, List.forall_mem_singleton]
      exact ⟨fun x hx => h.past x (List.mem_append_left _ hx), Nat.le_refl _⟩
  · rw [pushHistory_appends]
    · refine h.append hprice fun x hx => ?_
      rcases List.mem_append.mp hx with hx | hx
      · exact Nat.lt_of_lt_of_le (hless x hx last (List.mem_singleton_self last)) hlast
      · rw [List.mem_singleton.mp hx]
        omega
    · intro y hy
      rw [List.getLast?_append, List.getLast?_singleton] at hy
      cases hy
      exact hsame

theorem OrderedBy.later (h : OrderedBy now history) (hle : now ≤ timestamp) :
    OrderedBy timestamp history :=
  ⟨h.toOrdered, fun x hx => (h.past x hx).trans hle⟩

theorem exec_ordered (hs : OrderedBy i.timestamp s.history) (h : exec i s = .ok t) :
    OrderedBy i.timestamp t.history := by
  cases hcall : i.call with
  | initializeFeed admin stalenessThreshold =>
    simp only [exec, hcall, initializeFeed, bind_eq_ok, pure_eq_ok] at h
    obtain ⟨_, _, _, _, _, _, rfl⟩ := h
    exact hs
  | updatePrice price =>
    simp only [exec, hcall, updatePrice, bind_eq_ok, pure_eq_ok] at h
    obtain ⟨_, _, _, _, _, _, _, _, rfl⟩ := h
    exact hs.push price.2
  | setPublishers admin publishers =>
    simp only [exec, hcall, setPublishers, bind_eq_ok, pure_eq_ok] at h
    obtain ⟨_, _, rfl⟩ := h
    exact hs
  | setMinQuorum admin minQuorum =>
    simp only [exec, hcall, setMinQuorum, bind_eq_ok, pure_eq_ok] at h
    obtain ⟨_, _, _, _, rfl⟩ := h
    exact hs
  | submitPrice publisher price =>
    simp only [exec, hcall, submitPrice, bind_eq_ok, pure_eq_ok] at h
    obtain ⟨_, _, _, _, _, _, rfl⟩ := h
    exact hs.push price.2

theorem runFeed_ordered {is : List Invocation}
    (htime : is.Pairwise fun i j => i.timestamp ≤ j.timestamp) (hlate : ∀ i ∈ is, i.timestamp ≤ now)
    (start : ℕ) (hstart : ∀ i ∈ is, start ≤ i.timestamp) (hnow : start ≤ now)
    (hs : OrderedBy start s.history) : OrderedBy now (runFeed s is).history := by
  induction is generalizing s start with
  | nil => exact hs.later hnow
  | cons i is ih =>
    obtain ⟨hlater, htime⟩ := List.pairwise_cons.mp htime
    obtain ⟨hi, hrest⟩ := List.forall_mem_cons.mp hlate
    have hnext : OrderedBy i.timestamp (HostRuns.step exec s i).history := by
      have hold := hs.later (hstart i List.mem_cons_self)
      exact HostRuns.step_preserves (I := fun t => OrderedBy i.timestamp t.history)
        (fun t ht => exec_ordered hold ht) hold
    exact ih htime hrest _ hlater hi hnext

end History

section Ema
variable {observations : List PriceObservation} {smoothingBps : ℕ} {price low high : ℤ}

/-- No lower than every price, and no higher. -/
structure Within (observations : List PriceObservation) (price : ℤ) : Prop where
  low : ∃ x ∈ observations, x.price ≤ price
  high : ∃ x ∈ observations, price ≤ x.price

theorem emaStep_between (hbps : smoothingBps ≤ bpsDenominator) (hprice : InI128 price)
    {x : PriceObservation} (hx : InI128 x.price) :
    min price x.price ≤ emaStep smoothingBps price x ∧
      emaStep smoothingBps price x ≤ max price x.price := by
  refine step_between hprice hx (Int.natCast_nonneg _) ?_ (by decide)
  exact_mod_cast hbps

theorem Within.between {x y : ℤ} (h : Within observations x) (hy : ∃ z ∈ observations, z.price = y)
    (hprice : min x y ≤ price ∧ price ≤ max x y) : Within observations price := by
  obtain ⟨⟨low, hlow, hlowle⟩, ⟨high, hhigh, hhighle⟩⟩ := h
  obtain ⟨z, hz, rfl⟩ := hy
  obtain ⟨hmin, hmax⟩ := hprice
  rcases Int.le_total x z.price with hup | hdown
  · rw [min_eq_left hup] at hmin
    rw [max_eq_right hup] at hmax
    exact ⟨⟨low, hlow, hlowle.trans hmin⟩, ⟨z, hz, hmax⟩⟩
  · rw [min_eq_right hdown] at hmin
    rw [max_eq_left hdown] at hmax
    exact ⟨⟨z, hz, hmin⟩, ⟨high, hhigh, hmax.trans hhighle⟩⟩

/-- Every step keeps the average within the observations. -/
theorem Within.foldl (hbps : smoothingBps ≤ bpsDenominator)
    (hrange : ∀ x ∈ observations, InI128 x.price) {rest : List PriceObservation}
    (hrest : ∀ x ∈ rest, x ∈ observations) (hprice : InI128 price) (h : Within observations price) :
    Within observations (rest.foldl (emaStep smoothingBps) price) := by
  induction rest generalizing price with
  | nil => exact h
  | cons x rest ih =>
    obtain ⟨hx, hrest⟩ := List.forall_mem_cons.mp hrest
    have hstep := emaStep_between hbps hprice (hrange x hx)
    exact ih hrest (saturate_inI128 _) (h.between ⟨x, hx, rfl⟩ hstep)

theorem ema_within (hbps : smoothingBps ≤ bpsDenominator)
    (hrange : ∀ x ∈ observations, InI128 x.price) (hne : observations ≠ []) :
    Within observations (ema observations smoothingBps) := by
  cases observations with
  | nil => exact absurd rfl hne
  | cons x rest =>
    have hfirst := List.mem_cons_self (a := x) (l := rest)
    exact Within.foldl hbps hrange (fun y hy => List.mem_cons_of_mem _ hy) (hrange x hfirst)
      ⟨⟨x, hfirst, Int.le_refl _⟩, ⟨x, hfirst, Int.le_refl _⟩⟩

end Ema

section Twap
variable {observations : List PriceObservation} {now : ℕ} {price sum total : ℤ}

/-- The prices with the times that they held. -/
def segments (now : ℕ) : List PriceObservation → List (ℤ × ℕ)
  | [] => []
  | obs :: rest => (obs.price, nextTimestamp now rest - obs.timestamp) :: segments now rest

/-- The mean, rounded toward zero, or the last price if none has held for any time. -/
def mean (now : ℕ) (observations : List PriceObservation) : ℤ :=
  let xs := segments now observations
  if totalWeight xs = 0 then lastPrice observations else (weightedSum xs).tdiv (totalWeight xs)

/-- What `get_twap` promises of the observations in its window. -/
structure Averages (now : ℕ) (observations : List PriceObservation) (price : ℤ) : Prop
    extends Within observations price where
  exact : price = mean now observations

theorem twapLoop_eq (hsum : InI128 sum) (htotal : InI128 total) :
    twapLoop now observations (sum, total) = ((segments now observations).foldl accumulate sum,
      (segments now observations).foldl (fun total x => saturatingAdd total x.2) total) := by
  induction observations generalizing sum total with
  | nil => rfl
  | cons obs rest ih =>
    by_cases hsame : nextTimestamp now rest = obs.timestamp
    · -- an observation that held for no time adds nothing
      rw [twapLoop, if_pos hsame, ih hsum htotal, segments, hsame, Nat.sub_self]
      simp [accumulate, saturatingAdd, saturatingMul, saturate_of_inI128 hsum,
        saturate_of_inI128 htotal, saturate_of_inI128 (show InI128 0 by decide)]
    · rw [twapLoop, if_neg hsame]
      exact ih (saturate_inI128 _) (saturate_inI128 _)

theorem mem_segments {x : ℤ × ℕ} (h : x ∈ segments now observations) :
    ∃ obs ∈ observations, obs.price = x.1 := by
  induction observations with
  | nil => cases h
  | cons obs rest ih =>
    rcases List.mem_cons.mp h with rfl | h
    · exact ⟨obs, List.mem_cons_self, rfl⟩
    · obtain ⟨other, hmem, hprice⟩ := ih h
      exact ⟨other, List.mem_cons_of_mem _ hmem, hprice⟩

theorem weight_segments {obs : PriceObservation} {rest : List PriceObservation}
    (hrising : (obs :: rest).Pairwise fun x y => x.timestamp < y.timestamp)
    (hpast : ∀ x ∈ obs :: rest, x.timestamp ≤ now) :
    totalWeight (segments now (obs :: rest)) + obs.timestamp = now := by
  induction rest generalizing obs with
  | nil =>
    have hobs := hpast obs List.mem_cons_self
    simp [segments, nextTimestamp]
    omega
  | cons next rest ih =>
    obtain ⟨hless, hrising⟩ := List.pairwise_cons.mp hrising
    have hnext := hless next List.mem_cons_self
    have hrest := ih hrising fun x hx => hpast x (List.mem_cons_of_mem _ hx)
    rw [segments, totalWeight_cons]
    dsimp only [nextTimestamp]
    omega

theorem lastPrice_within (hne : observations ≠ []) : Within observations (lastPrice observations) := by
  have hlast := List.getLast_mem hne
  rw [lastPrice, List.getLast?_eq_some_getLast hne]
  exact ⟨⟨_, hlast, Int.le_refl _⟩, ⟨_, hlast, Int.le_refl _⟩⟩

theorem mean_within (hne : observations ≠ []) : Within observations (mean now observations) := by
  unfold mean
  dsimp only
  split
  · exact lastPrice_within hne
  · next hweight =>
    obtain ⟨⟨x, hx, hlow⟩, ⟨y, hy, hhigh⟩⟩ := mean_between (Nat.pos_of_ne_zero hweight)
    obtain ⟨a, ha, haprice⟩ := mem_segments hx
    obtain ⟨b, hb, hbprice⟩ := mem_segments hy
    exact ⟨⟨a, ha, haprice ▸ hlow⟩, ⟨b, hb, hbprice ▸ hhigh⟩⟩

theorem averages_iff (hne : observations ≠ []) :
    Averages now observations price ↔ price = mean now observations :=
  ⟨fun h => h.exact, fun h => ⟨h ▸ mean_within hne, h⟩⟩

theorem mean_single (obs : PriceObservation) : mean now [obs] = obs.price := by
  unfold mean
  dsimp only
  split
  · rfl
  · next hweight =>
    have htotal : ((totalWeight (segments now [obs]) : ℕ) : ℤ) ≠ 0 := Int.natCast_ne_zero.mpr hweight
    rw [← Int.mul_tdiv_cancel obs.price htotal]
    simp [segments]

/-- Observations of the past with rising timestamps, in the range of a `u64`. -/
structure Windowed (now : ℕ) (observations : List PriceObservation) : Prop where
  rising : observations.Pairwise fun x y => x.timestamp < y.timestamp
  past : ∀ x ∈ observations, x.timestamp ≤ now
  bound : now ≤ u64Max

theorem twap_several {obs next : PriceObservation} {rest : List PriceObservation}
    (h : Windowed now (obs :: next :: rest)) :
    0 < totalWeight (segments now (obs :: next :: rest)) ∧
      twap (obs :: next :: rest) now =
        ((segments now (obs :: next :: rest)).foldl accumulate 0).tdiv
          (totalWeight (segments now (obs :: next :: rest))) := by
  have htotal := weight_segments h.rising h.past
  have hless := (List.pairwise_cons.mp h.rising).1 next List.mem_cons_self
  have hnext := h.past next (List.mem_cons_of_mem _ List.mem_cons_self)
  have hbound := h.bound
  have hpos : 0 < totalWeight (segments now (obs :: next :: rest)) := by omega
  refine ⟨hpos, ?_⟩
  have hzero : InI128 0 := by decide
  have hexact : (segments now (obs :: next :: rest)).foldl (fun total x => saturatingAdd total x.2) 0 =
      totalWeight (segments now (obs :: next :: rest)) := by
    rw [foldl_saturatingAdd (fun x : ℤ × ℕ => (x.2 : ℤ)) _ (Int.le_refl 0)
      (fun x _ => Int.natCast_nonneg _), totalWeight_cast, zero_add]
    rw [totalWeight_cast, zero_add]
    unfold u64Max at hbound
    omega
  rw [twap]
  · rw [twapLoop_eq hzero hzero, hexact]
    dsimp only
    rw [if_neg (Int.natCast_ne_zero.mpr hpos.ne')]
  · simp

/-- No product of a price with its time and no sum of them leaves the range. -/
def Room (now : ℕ) (observations : List PriceObservation) : Prop :=
  observations.length = 1 ∨ Fits 0 (segments now observations)

theorem twap_eq_mean (h : Windowed now observations) (hne : observations ≠ [])
    (hroom : Room now observations) : twap observations now = mean now observations := by
  match observations with
  | [] => exact absurd rfl hne
  | [obs] => rw [mean_single, twap]
  | obs :: next :: rest =>
    obtain ⟨hpos, hquotient⟩ := twap_several h
    have hfits := hroom.resolve_left (by simp)
    rw [hquotient, hfits.foldl, zero_add, mean, if_neg hpos.ne']

def OneSign (observations : List PriceObservation) : Prop :=
  (∀ x ∈ observations, 0 ≤ x.price) ∨ ∀ x ∈ observations, x.price ≤ 0

theorem twap_eq_mean_iff (h : Windowed now observations) (hne : observations ≠ [])
    (hsign : OneSign observations) :
    twap observations now = mean now observations ↔ observations.length = 1 ∨
      ((-170141183460469231731687303715884105728 : ℤ).tdiv (totalWeight (segments now observations)) ≤
          mean now observations ∧
        mean now observations ≤
          (170141183460469231731687303715884105727 : ℤ).tdiv
            (totalWeight (segments now observations))) := by
  match observations with
  | [] => exact absurd rfl hne
  | [obs] => exact iff_of_true (by rw [mean_single, twap]) (.inl rfl)
  | obs :: next :: rest =>
    obtain ⟨hpos, hquotient⟩ := twap_several h
    have hzero : InI128 0 := by decide
    have hsaturated : (segments now (obs :: next :: rest)).foldl accumulate 0 =
        saturate (weightedSum (segments now (obs :: next :: rest))) := by
      rw [← zero_add (weightedSum _)]
      rcases hsign with hsign | hsign
      · refine foldl_of_nonneg (Int.le_refl 0) hzero fun x hx => ?_
        obtain ⟨a, ha, haprice⟩ := mem_segments hx
        exact haprice ▸ hsign a ha
      · refine foldl_of_nonpos (Int.le_refl 0) hzero fun x hx => ?_
        obtain ⟨a, ha, haprice⟩ := mem_segments hx
        exact haprice ▸ hsign a ha
    have hmean : mean now (obs :: next :: rest) =
        (weightedSum (segments now (obs :: next :: rest))).tdiv
          (totalWeight (segments now (obs :: next :: rest))) := by
      rw [mean, if_neg hpos.ne']
    rw [hquotient, hsaturated, hmean, tdiv_saturate_iff (Int.natCast_pos.mpr hpos)]
    exact (or_iff_right (by simp)).symm

end Twap

section Runs
variable {is : List Invocation} {env : Env} {window : ℕ} {s : State}

theorem getTwap_ok (h : inWindow env window s ≠ []) :
    getTwap env window s = .ok (twap (inWindow env window s) env.timestamp) := by
  rw [getTwap, rejectIf_neg h]
  rfl

/-- In every run whose time does not run backwards the history is ordered and the moving average stays
    within it. The time-weighted average of a window is its mean if the sums have room, and for prices
    of one sign exactly if the mean is one that sums in range can have. -/
theorem averages_within_iff (hrun : runFeed {} is = s)
    (htime : is.Pairwise fun i j => i.timestamp ≤ j.timestamp) :
    (s.history.length ≤ maxHistory ∧ s.history.Pairwise fun x y => x.timestamp < y.timestamp) ∧
    (∀ smoothingBps, 1 ≤ smoothingBps → smoothingBps ≤ 10000 → s.history ≠ [] →
      ∃ price, getEma smoothingBps s = .ok price ∧ Within s.history price) ∧
    ∀ env window, (∀ i ∈ is, i.timestamp ≤ env.timestamp) → env.timestamp ≤ u64Max →
      inWindow env window s ≠ [] → ∃ price, getTwap env window s = .ok price ∧
        (Room env.timestamp (inWindow env window s) →
          Averages env.timestamp (inWindow env window s) price) ∧
        (OneSign (inWindow env window s) →
          (Averages env.timestamp (inWindow env window s) price ↔
            (inWindow env window s).length = 1 ∨
            ((-170141183460469231731687303715884105728 : ℤ).tdiv
                (totalWeight (segments env.timestamp (inWindow env window s))) ≤
                mean env.timestamp (inWindow env window s) ∧
              mean env.timestamp (inWindow env window s) ≤
                (170141183460469231731687303715884105727 : ℤ).tdiv
                  (totalWeight (segments env.timestamp (inWindow env window s)))))) := by
  subst hrun
  have hordered : ∀ now, (∀ i ∈ is, i.timestamp ≤ now) → OrderedBy now (runFeed {} is).history :=
    fun now hlate => runFeed_ordered htime hlate 0 (fun _ _ => Nat.zero_le _) (Nat.zero_le _)
      ⟨ordered_nil, fun _ hx => by cases hx⟩
  have hhistory : Ordered (runFeed {} is).history :=
    (hordered (is.map fun i => i.timestamp).sum
      fun i hi => List.le_sum_of_mem (List.mem_map.mpr ⟨i, hi, rfl⟩)).toOrdered
  refine ⟨⟨hhistory.length, hhistory.rising⟩, fun smoothingBps hlow hhigh hne => ?_, ?_⟩
  · have hwithin : Within _ (ema (runFeed {} is).history smoothingBps) :=
      ema_within hhigh hhistory.range hne
    refine ⟨_, ?_, hwithin⟩
    have hbps : ¬ (smoothingBps = 0 ∨ bpsDenominator < smoothingBps) := by
      unfold bpsDenominator
      omega
    rw [getEma, rejectIf_neg hbps, rejectIf_neg hne]
    rfl
  · intro env window hlate hbound hne
    have hwindow : Windowed env.timestamp (inWindow env window (runFeed {} is)) := by
      refine ⟨hhistory.rising.filter _, fun x hx => ?_, hbound⟩
      exact (hordered _ hlate).past x (List.mem_of_mem_filter hx)
    refine ⟨_, getTwap_ok hne, fun hroom => ?_, fun hsign => ?_⟩
    · exact (averages_iff hne).mpr (twap_eq_mean hwindow hne hroom)
    · rw [averages_iff hne]
      exact twap_eq_mean_iff hwindow hne hsign

end Runs

/-- Alice's price of 100 holds for two seconds, and then Bob's price of 110 for one. -/
def demoCourse : List Invocation := demoFeed [demoAlice, demoBob] ++
  [demoInvoke 4 (.submitPrice demoAlice demoPrice),
    demoInvoke 6 (.submitPrice demoBob demoHigher)]

theorem averages_within_demo :
    Averages 7 [⟨100, 4⟩, ⟨110, 6⟩] 103 ∧ getTwap (demoEnv 7) 10 (runFeed {} demoCourse) = .ok 103 ∧
      getEma 5000 (runFeed {} demoCourse) = .ok 105 := by
  have htime : demoCourse.Pairwise fun i j => i.timestamp ≤ j.timestamp := by decide
  rcases (averages_within_iff rfl htime).2.2 (demoEnv 7) 10 (by decide) (by decide) (by decide +kernel) with
    ⟨price, hprice, hroom, _⟩
  have hresult : getTwap (demoEnv 7) 10 (runFeed {} demoCourse) = .ok 103 := rfl
  obtain rfl : 103 = price := Except.ok.inj (hresult.symm.trans hprice)
  refine ⟨hroom (.inr ?_), hresult, rfl⟩
  exact ⟨by decide, by decide, by decide, by decide, trivial⟩

/-- Two prices of `2^126` have an average of a fifth of the largest `i128`. -/
theorem average_below_prices :
    getTwap (demoEnv 9) 10 demoLarge = .ok 34028236692093846346337460743176821145 ∧
    inWindow (demoEnv 9) 10 demoLarge = [⟨2 ^ 126, 4⟩, ⟨2 ^ 126, 5⟩] ∧
    ¬ Averages 9 [⟨2 ^ 126, 4⟩, ⟨2 ^ 126, 5⟩] 34028236692093846346337460743176821145 := by
  refine ⟨rfl, rfl, fun haverages => ?_⟩
  obtain ⟨x, hx, hle⟩ := haverages.low
  revert x
  decide

end SorobanKit.OraclePublishers
