import Mathlib.Algebra.BigOperators.Ring.Finset
import Mathlib.Algebra.Order.BigOperators.Group.Finset
import Mathlib.Algebra.Order.Ring.Int
import Mathlib.Tactic.Ring
import SorobanKit.StakingMoves

set_option autoImplicit false

/-!
# Emission bounds every reward

The numerator of a staker is what was paid to them, what is recorded for them and what the
accumulator owes them since their last settlement, scaled by `rewardScale`. Settling never
raises a numerator, and an advance of the accumulator raises all numerators together by at
most what was emitted.
-/
namespace SorobanKit.Staking
open CommonMath HostBalances HostInteger HostInvocation HostRuns HostTransfers

/-- One emission schedule, in force from `start` until the next one. -/
structure Segment where
  start : ℕ
  rewardRate : ℤ
  periodEnd : ℕ
  deriving DecidableEq, Repr

/-- What a segment emits up to ledger `now`: ledgers past `periodEnd` do not count. -/
def Segment.emitted (x : Segment) (now : ℕ) : ℤ := x.rewardRate * ↑(min now x.periodEnd - x.start)

/-- What the segments emit up to ledger `now`, each up to the start of the next. -/
def emitted : List Segment → ℕ → ℤ
  | [], _ => 0
  | [x], now => x.emitted now
  | x :: y :: rest, now => x.emitted y.start + emitted (y :: rest) now

/-- The schedule that an invocation sets. -/
def segmentOf {house : Address} (i : Invocation house) : Option Segment :=
  match i.call with
  | .setRewardRate rewardRate periodEnd => some ⟨i.sequence, rewardRate, periodEnd⟩
  | _ => none

/-- The schedules set by the calls that returned. -/
def segments {house : Address} (past : List (Entry State (Invocation house))) : List Segment :=
  past.filterMap fun e => segmentOf e.invocation

theorem emitted_snoc (xs : List Segment) (x y : Segment) (now : ℕ) :
    emitted (xs ++ [x] ++ [y]) now = emitted (xs ++ [x]) y.start + y.emitted now := by
  induction xs with
  | nil => rfl
  | cons z xs ih =>
    cases xs with
    | nil =>
      change z.emitted x.start + (x.emitted y.start + y.emitted now) =
        z.emitted x.start + x.emitted y.start + y.emitted now
      omega
    | cons w xs =>
      change z.emitted w.start + emitted (w :: xs ++ [x] ++ [y]) now =
        z.emitted w.start + emitted (w :: xs ++ [x]) y.start + y.emitted now
      rw [ih]
      omega

theorem emitted_advance (xs : List Segment) {x : Segment} {last now : ℕ} (hlast : x.start ≤ last)
    (hend : x.start ≤ x.periodEnd) (hnow : last ≤ now) :
    emitted (xs ++ [x]) now = emitted (xs ++ [x]) last +
      x.rewardRate * ↑(min now x.periodEnd - min last x.periodEnd) := by
  induction xs with
  | nil =>
    change x.rewardRate * _ = x.rewardRate * _ + x.rewardRate * _
    rw [← mul_add]
    congr 1
    omega
  | cons z xs ih =>
    cases xs with
    | nil =>
      change z.emitted x.start + emitted ([] ++ [x]) now =
        z.emitted x.start + emitted ([] ++ [x]) last + _
      rw [ih]
      omega
    | cons w xs =>
      change z.emitted w.start + emitted (w :: xs ++ [x]) now =
        z.emitted w.start + emitted (w :: xs ++ [x]) last + _
      rw [ih]
      omega

theorem scaled_ok {a b denominator quotient : ℤ} (h : scaled a b denominator = .ok quotient) :
    quotient = (a * b).tdiv denominator := by
  unfold scaled at h
  split at h
  · next hdiv =>
    rw [pure_eq_ok] at h
    subst h
    exact mulDiv_ok hdiv
  · cases h

/-- The accumulator grows, and all stakes together earn no more than is emitted. -/
theorem projectedRewardPerToken_ok {s : State} {now : ℕ} {totalStaked rpt : ℤ}
    (h : projectedRewardPerToken now totalStaked s = .ok rpt) :
    rewardPerToken s ≤ rpt ∧ ∀ weight, 0 ≤ weight → weight ≤ totalStaked → 0 ≤ rewardRate s →
      weight * (rpt - rewardPerToken s) ≤
        rewardScale * (rewardRate s * elapsedLedgers now s) := by
  unfold projectedRewardPerToken at h
  split at h
  · rw [pure_eq_ok] at h
    subst h
    refine ⟨le_refl _, fun weight _ _ hrate => ?_⟩
    rw [sub_self, mul_zero]
    exact mul_nonneg (by decide) (mul_nonneg hrate (Int.natCast_nonneg _))
  · next hactive =>
    push Not at hactive
    obtain ⟨_, hrate, htotal⟩ := hactive
    simp only [bind_eq_ok, okOr_eq_ok, checkedMul_eq_some, checkedAdd_eq_some] at h
    obtain ⟨_, ⟨_, rfl⟩, delta, hdelta, _, rfl⟩ := h
    have hemitted : 0 ≤ (elapsedLedgers now s : ℤ) * rewardRate s * rewardScale :=
      mul_nonneg (mul_nonneg (Int.natCast_nonneg _) (le_of_lt hrate)) (by decide)
    have hquotient : delta = (elapsedLedgers now s : ℤ) * rewardRate s * rewardScale / totalStaked := by
      rw [scaled_ok hdelta, Int.tdiv_eq_ediv_of_nonneg hemitted]
    have hnonneg : 0 ≤ delta := by
      rw [hquotient]
      exact Int.ediv_nonneg hemitted (le_of_lt htotal)
    refine ⟨by omega, fun weight hweight hle _ => ?_⟩
    calc
      weight * (rewardPerToken s + delta - rewardPerToken s) = weight * delta := by
        rw [add_sub_cancel_left]
      _ ≤ totalStaked * delta := mul_le_mul_of_nonneg_right hle hnonneg
      _ ≤ (elapsedLedgers now s : ℤ) * rewardRate s * rewardScale := by
        rw [hquotient]
        exact Int.mul_ediv_self_le (ne_of_gt htotal)
      _ = rewardScale * (rewardRate s * elapsedLedgers now s) := by
        rw [mul_comm, mul_comm (rewardRate s)]

theorem earnedAt_le {s : State} {staker : Address} {rpt : ℤ} (hstake : 0 ≤ entry s.stakes staker)
    (hrewards : 0 ≤ entry s.rewards staker) (hpaid : entry s.rewardPerTokenPaid staker ≤ rpt) :
    0 ≤ earnedAtRewardPerToken s staker rpt ∧
      rewardScale * earnedAtRewardPerToken s staker rpt ≤
        rewardScale * entry s.rewards staker +
          entry s.stakes staker * (rpt - entry s.rewardPerTokenPaid staker) := by
  have hshare : 0 ≤ entry s.stakes staker * (rpt - entry s.rewardPerTokenPaid staker) :=
    mul_nonneg hstake (by omega)
  have hrecorded : 0 ≤ rewardScale * entry s.rewards staker := mul_nonneg (by decide) hrewards
  cases hearned : calculateEarned (entry s.stakes staker) rpt (entry s.rewardPerTokenPaid staker)
    (entry s.rewards staker) with
  | none =>
    rw [earnedAtRewardPerToken, hearned, Option.getD_none]
    omega
  | some amount =>
    rw [earnedAtRewardPerToken, hearned, Option.getD_some]
    unfold calculateEarned at hearned
    simp only [Option.bind_eq_bind, Option.bind_eq_some_iff, checkedSub_eq_some, checkedAdd_eq_some]
      at hearned
    obtain ⟨_, ⟨_, rfl⟩, share, hdiv, _, rfl⟩ := hearned
    have hquotient : share =
        entry s.stakes staker * (rpt - entry s.rewardPerTokenPaid staker) / rewardScale := by
      rw [mulDiv_toOption hdiv, Int.tdiv_eq_ediv_of_nonneg hshare]
    have hnonneg : 0 ≤ share := by
      rw [hquotient]
      exact Int.ediv_nonneg hshare (by decide)
    have hle : rewardScale * share ≤
        entry s.stakes staker * (rpt - entry s.rewardPerTokenPaid staker) := by
      rw [hquotient]
      exact Int.mul_ediv_self_le (by decide)
    refine ⟨by omega, ?_⟩
    rw [mul_add]
    omega

def isReward (x : Transfer Purpose) : Bool := decide (x.purpose = .reward)

/-- All rewards ever paid. -/
def claimed (s : State) : ℤ := sumOf isReward s.transfers

/-- The rewards paid to one staker. -/
def claimedBy (s : State) (a : Address) : ℤ :=
  sumOf (fun x => isReward x && decide (x.target = a)) s.transfers

/-- What a staker has been credited, at accumulator `rpt`, before it is divided and rounded. -/
def numerator (s : State) (rpt : ℤ) (a : Address) : ℤ :=
  rewardScale * (claimedBy s a + entry s.rewards a) +
    entry s.stakes a * (rpt - entry s.rewardPerTokenPaid a)

structure Emitting (past : List Segment) (s : State) : Prop where
  admin_ne : s.admin ≠ none
  total_eq : s.totalStaked = some (total s.stakes)
  rewards_nonneg : ∀ a, 0 ≤ entry s.rewards a
  paid_le : ∀ a, entry s.rewardPerTokenPaid a ≤ rewardPerToken s
  schedule : (past = [] ∧ rewardRate s = 0) ∨ ∃ earlier x, past = earlier ++ [x] ∧
    rewardRate s = x.rewardRate ∧ periodEnd s = x.periodEnd ∧ x.start ≤ lastUpdateLedger s ∧
    x.start ≤ x.periodEnd
  rate_nonneg : 0 ≤ rewardRate s
  bounded : ∀ stakers : Finset Address, ∑ a ∈ stakers, numerator s (rewardPerToken s) a ≤
    rewardScale * emitted past (lastUpdateLedger s)

section Steps
variable {past : List Segment} {s t : State}

theorem Emitting.emitted_advance (hs : Emitting past s) {now : ℕ} (hnow : lastUpdateLedger s ≤ now) :
    emitted past now =
      emitted past (lastUpdateLedger s) + rewardRate s * elapsedLedgers now s := by
  rcases hs.schedule with ⟨rfl, hrate⟩ | ⟨earlier, x, rfl, hrate, hend, hstart, hwindow⟩
  · rw [hrate, zero_mul]
    rfl
  · rw [hrate, Staking.emitted_advance earlier hstart hwindow hnow, elapsedLedgers, hend]
    rfl

theorem Emitting.bounded_at (hs : Emitting past s) (hstakes : NonnegEntries s.stakes) {now : ℕ}
    {totalStaked rpt : ℤ} (hnow : lastUpdateLedger s ≤ now) (htotal : s.totalStaked = some totalStaked)
    (hrpt : projectedRewardPerToken now totalStaked s = .ok rpt) (stakers : Finset Address) :
    ∑ a ∈ stakers, numerator s rpt a ≤ rewardScale * emitted past now := by
  have hweight : ∑ a ∈ stakers, entry s.stakes a ≤ totalStaked := by
    rw [hs.total_eq] at htotal
    cases htotal
    exact hstakes.sum_entry_le_total stakers
  have hnonneg : 0 ≤ ∑ a ∈ stakers, entry s.stakes a :=
    Finset.sum_nonneg fun a _ => hstakes.entry_nonneg a
  have hraise := (projectedRewardPerToken_ok hrpt).2 _ hnonneg hweight hs.rate_nonneg
  have hsplit : ∑ a ∈ stakers, numerator s rpt a =
      ∑ a ∈ stakers, numerator s (rewardPerToken s) a +
        (∑ a ∈ stakers, entry s.stakes a) * (rpt - rewardPerToken s) := by
    rw [Finset.sum_mul, ← Finset.sum_add_distrib]
    refine Finset.sum_congr rfl fun a _ => ?_
    unfold numerator
    ring
  have hbounded := hs.bounded stakers
  rw [hsplit, hs.emitted_advance hnow, mul_add]
  omega

theorem numerator_settled (hs : Emitting past s) (hstakes : NonnegEntries s.stakes) (now : ℕ)
    {rpt : ℤ} (hrpt : rewardPerToken s ≤ rpt) (staker a : Address) :
    numerator (updateReward staker (s.advance now rpt)) rpt a ≤ numerator s rpt a := by
  by_cases hsame : a = staker
  · subst hsame
    have hpaid := hs.paid_le a
    have hearned := (earnedAt_le (s := s.advance now rpt) (hstakes.entry_nonneg a) (hs.rewards_nonneg a)
      (show entry s.rewardPerTokenPaid a ≤ rpt by omega)).2
    change rewardScale * (claimedBy s a +
        entry (s.rewards.insert a (earned (s.advance now rpt) a)) a) +
      entry s.stakes a * (rpt - entry (s.rewardPerTokenPaid.insert a rpt) a) ≤ numerator s rpt a
    rw [entry_insert_self, entry_insert_self, sub_self, mul_zero, add_zero, numerator, mul_add,
      mul_add]
    change rewardScale * earned (s.advance now rpt) a ≤ rewardScale * entry s.rewards a +
      entry s.stakes a * (rpt - entry s.rewardPerTokenPaid a) at hearned
    omega
  · change rewardScale * (claimedBy s a + entry (s.rewards.insert staker _) a) +
      entry s.stakes a * (rpt - entry (s.rewardPerTokenPaid.insert staker rpt) a) ≤
        numerator s rpt a
    rw [entry_insert_of_ne _ _ hsame, entry_insert_of_ne _ _ hsame]
    exact le_refl _

/-- What all stakers were paid and are owed at accumulator `rpt`, when the numerators are
    bounded. -/
theorem Emitting.credited_le (hs : Emitting past s) (hstakes : NonnegEntries s.stakes) {rpt bound : ℤ}
    (hrpt : rewardPerToken s ≤ rpt)
    (hbound : ∀ stakers : Finset Address,
      ∑ a ∈ stakers, numerator s rpt a ≤ rewardScale * bound) (stakers : Finset Address) :
    claimed s + ∑ a ∈ stakers, earnedAtRewardPerToken s a rpt ≤ bound := by
  let everyone := stakers ∪ (s.transfers.map Transfer.target).toFinset
  have hearned : ∀ a, 0 ≤ earnedAtRewardPerToken s a rpt ∧
      rewardScale * earnedAtRewardPerToken s a rpt ≤
        rewardScale * entry s.rewards a + entry s.stakes a * (rpt - entry s.rewardPerTokenPaid a) :=
    fun a => earnedAt_le (hstakes.entry_nonneg a) (hs.rewards_nonneg a)
      (le_trans (hs.paid_le a) hrpt)
  have hclaimed : ∑ a ∈ everyone, claimedBy s a = claimed s := by
    refine sum_sumOf_target isReward fun x hx => ?_
    simp only [everyone, Finset.mem_union, List.mem_toFinset]
    exact .inr (List.mem_map_of_mem hx)
  have hmore : ∑ a ∈ stakers, earnedAtRewardPerToken s a rpt ≤
      ∑ a ∈ everyone, earnedAtRewardPerToken s a rpt :=
    Finset.sum_le_sum_of_subset_of_nonneg Finset.subset_union_left fun a _ _ => (hearned a).1
  have hterms : ∑ a ∈ everyone, rewardScale * (claimedBy s a + earnedAtRewardPerToken s a rpt) ≤
      ∑ a ∈ everyone, numerator s rpt a := by
    refine Finset.sum_le_sum fun a _ => ?_
    have hterm := (hearned a).2
    rw [numerator, mul_add, mul_add]
    omega
  have hall := le_trans hterms (hbound everyone)
  rw [← Finset.mul_sum, Finset.sum_add_distrib, hclaimed] at hall
  have hscaled := le_of_mul_le_mul_left hall (by decide)
  omega

theorem Emitting.schedule_at (hs : Emitting past s) {now : ℕ} (hnow : lastUpdateLedger s ≤ now)
    (hrate : rewardRate t = rewardRate s) (hend : periodEnd t = periodEnd s)
    (hlast : lastUpdateLedger t = now) :
    (past = [] ∧ rewardRate t = 0) ∨ ∃ earlier x, past = earlier ++ [x] ∧
      rewardRate t = x.rewardRate ∧ periodEnd t = x.periodEnd ∧ x.start ≤ lastUpdateLedger t ∧
      x.start ≤ x.periodEnd := by
  rw [hrate, hend, hlast]
  rcases hs.schedule with hnone | ⟨earlier, x, hpast, hx, hxend, hstart, hwindow⟩
  · exact .inl hnone
  · exact .inr ⟨earlier, x, hpast, hx, hxend, by omega, hwindow⟩

theorem Emitting.settle (hs : Emitting past s) (hstakes : NonnegEntries s.stakes) {now : ℕ}
    {totalStaked rpt : ℤ} (hnow : lastUpdateLedger s ≤ now) (htotal : s.totalStaked = some totalStaked)
    (hrpt : projectedRewardPerToken now totalStaked s = .ok rpt) (staker : Address)
    {stakes : Balances Address} (hother : ∀ a, a ≠ staker → entry stakes a = entry s.stakes a) :
    Emitting past { updateReward staker (s.advance now rpt) with
      stakes := stakes, totalStaked := some (total stakes) } := by
  have hgrow := (projectedRewardPerToken_ok hrpt).1
  refine ⟨hs.admin_ne, rfl, fun a => ?_, fun a => ?_, hs.schedule_at hnow rfl rfl rfl, hs.rate_nonneg,
    fun stakers => ?_⟩
  · change 0 ≤ entry (s.rewards.insert staker (earned (s.advance now rpt) staker)) a
    by_cases hsame : a = staker
    · rw [hsame, entry_insert_self]
      exact (earnedAt_le (s := s.advance now rpt) (hstakes.entry_nonneg staker)
        (hs.rewards_nonneg staker) (le_trans (hs.paid_le staker) hgrow)).1
    · rw [entry_insert_of_ne _ _ hsame]
      exact hs.rewards_nonneg a
  · change entry (s.rewardPerTokenPaid.insert staker rpt) a ≤ rpt
    by_cases hsame : a = staker
    · rw [hsame, entry_insert_self]
    · rw [entry_insert_of_ne _ _ hsame]
      exact le_trans (hs.paid_le a) hgrow
  · -- a changed stake is worth nothing yet
    have hstake : ∀ a, numerator { updateReward staker (s.advance now rpt) with
          stakes := stakes, totalStaked := some (total stakes) } rpt a =
        numerator (updateReward staker (s.advance now rpt)) rpt a := by
      intro a
      unfold numerator
      by_cases hsame : a = staker
      · subst hsame
        change _ + entry stakes a * (rpt - entry (s.rewardPerTokenPaid.insert a rpt) a) =
          _ + entry s.stakes a * (rpt - entry (s.rewardPerTokenPaid.insert a rpt) a)
        rw [entry_insert_self (m := s.rewardPerTokenPaid), sub_self, mul_zero, mul_zero]
        rfl
      · change _ + entry stakes a * _ = _ + entry s.stakes a * _
        rw [hother a hsame]
        rfl
    refine le_trans (Finset.sum_le_sum fun a _ => ?_) (hs.bounded_at hstakes hnow htotal hrpt stakers)
    exact le_of_eq_of_le (hstake a) (numerator_settled hs hstakes now hgrow staker a)

theorem Emitting.settle_only (hs : Emitting past s) (hstakes : NonnegEntries s.stakes) {now : ℕ}
    {totalStaked rpt : ℤ} (hnow : lastUpdateLedger s ≤ now) (htotal : s.totalStaked = some totalStaked)
    (hrpt : projectedRewardPerToken now totalStaked s = .ok rpt) (staker : Address) :
    Emitting past (updateReward staker (s.advance now rpt)) := by
  have hsame : updateReward staker (s.advance now rpt) =
      { updateReward staker (s.advance now rpt) with
        stakes := s.stakes, totalStaked := some (total s.stakes) } := by
    rw [← hs.total_eq]
    rfl
  rw [hsame]
  exact hs.settle hstakes hnow htotal hrpt staker fun _ _ => rfl

theorem Emitting.logged (hs : Emitting past s) {x : Transfer Purpose} (hx : isReward x = false)
    (requests : Finmap (fun _ : Address => UnbondRequest)) :
    Emitting past { s with unbondRequests := requests, transfers := s.transfers ++ [x] } := by
  refine { hs with bounded := fun stakers => ?_ }
  refine le_trans (le_of_eq (Finset.sum_congr rfl fun a _ => ?_)) (hs.bounded stakers)
  have hclaimed : claimedBy { s with unbondRequests := requests, transfers := s.transfers ++ [x] } a =
      claimedBy s a := by
    simp [claimedBy, hx]
  unfold numerator
  rw [hclaimed]
  rfl

theorem Emitting.rewarded (hs : Emitting past s) (house rewardToken staker : Address) :
    Emitting past { s with
      rewards := s.rewards.insert staker 0,
      transfers := s.transfers ++
        [⟨.reward, rewardToken, house, staker, entry s.rewards staker⟩] } := by
  refine { hs with
    rewards_nonneg := fun a => ?_
    bounded := fun stakers => ?_ }
  · by_cases hsame : a = staker
    · rw [hsame]
      exact le_of_eq (entry_insert_self s.rewards staker 0).symm
    · exact le_of_le_of_eq (hs.rewards_nonneg a) (entry_insert_of_ne s.rewards 0 hsame).symm
  · refine le_trans (le_of_eq (Finset.sum_congr rfl fun a _ => ?_)) (hs.bounded stakers)
    unfold numerator claimedBy
    dsimp only
    rw [sumOf_append, sumOf_cons, sumOf_nil]
    congr 2
    by_cases hsame : a = staker
    · subst hsame
      simp [isReward]
    · simp [entry_insert_of_ne _ _ hsame, Ne.symm hsame]

theorem Emitting.rated (hs : Emitting past s) (hstakes : NonnegEntries s.stakes) {now end' : ℕ}
    {totalStaked rpt rate : ℤ} (hnow : lastUpdateLedger s ≤ now)
    (htotal : s.totalStaked = some totalStaked)
    (hrpt : projectedRewardPerToken now totalStaked s = .ok rpt) (hrate : 0 ≤ rate)
    (hend : now < end') :
    Emitting (past ++ [⟨now, rate, end'⟩])
      { s.advance now rpt with rewardRate := some rate, periodEnd := some end' } := by
  have hgrow := (projectedRewardPerToken_ok hrpt).1
  refine ⟨hs.admin_ne, hs.total_eq, hs.rewards_nonneg, fun a => le_trans (hs.paid_le a) hgrow,
    .inr ⟨past, ⟨now, rate, end'⟩, rfl, rfl, rfl, le_refl _, le_of_lt hend⟩, hrate, fun stakers => ?_⟩
  have hnone : Segment.emitted ⟨now, rate, end'⟩ now = 0 := by
    have hempty : min now end' - now = 0 := by omega
    rw [Segment.emitted, hempty]
    exact mul_zero rate
  have hsame : emitted (past ++ [⟨now, rate, end'⟩]) now = emitted past now := by
    rcases List.eq_nil_or_concat' past with rfl | ⟨earlier, x, rfl⟩
    · exact hnone
    · rw [emitted_snoc, hnone, add_zero]
  change ∑ a ∈ stakers, numerator s rpt a ≤
    rewardScale * emitted (past ++ [⟨now, rate, end'⟩]) now
  rw [hsame]
  exact hs.bounded_at hstakes hnow htotal hrpt stakers

theorem Emitting.total_changed (hs : Emitting past s) {totalStaked : ℤ}
    (htotal : s.totalStaked = some totalStaked) (staker : Address) (change : ℤ) :
    totalStaked + change = total (s.stakes.insert staker (entry s.stakes staker + change)) := by
  rw [hs.total_eq] at htotal
  cases htotal
  rw [total_insert]
  omega

variable {house : Address} {i : Invocation house}

theorem exec_emitting (hs : Emitting past s) (hstakes : NonnegEntries s.stakes)
    (hnow : lastUpdateLedger s ≤ i.sequence) (h : exec i s = .ok t) :
    Emitting (past ++ (segmentOf i).toList) t ∧ rewardPerToken s ≤ rewardPerToken t := by
  cases exec_move h with
  | initialized hnone => exact absurd hnone hs.admin_ne
  | rated rate totalStaked rpt end' hcall hrate hend htotal hrpt h =>
    have hsegment : segmentOf i = some ⟨i.sequence, rate, end'⟩ := by rw [segmentOf, hcall]
    rw [hsegment, h]
    exact ⟨hs.rated hstakes hnow htotal hrpt hrate hend, (projectedRewardPerToken_ok hrpt).1⟩
  | staked staker token amount totalStaked rpt hcall hauth htotal hrpt htoken haccepts h =>
    have hsegment : segmentOf i = none := by rw [segmentOf, hcall]
    have hnext := hs.settle hstakes hnow htotal hrpt staker
      (fun a ha => entry_insert_of_ne s.stakes (entry s.stakes staker + amount) ha)
    rw [hsegment, Option.toList_none, List.append_nil, h, hs.total_changed htotal staker amount]
    exact ⟨hnext.logged rfl s.unbondRequests, (projectedRewardPerToken_ok hrpt).1⟩
  | paid staker token target amount totalStaked rpt purpose hpaid htotal hrpt henough htoken haccepts
      h =>
    have hsegment : segmentOf i = none ∧ purpose ≠ .reward := by
      rcases hpaid with ⟨hcall, _, _, rfl⟩ | ⟨hcall, _, rfl⟩
      · exact ⟨by rw [segmentOf, hcall], by decide⟩
      · exact ⟨by rw [segmentOf, hcall], by decide⟩
    have hnext := hs.settle hstakes hnow htotal hrpt staker
      (fun a ha => entry_insert_of_ne s.stakes (entry s.stakes staker - amount) ha)
    rw [hsegment.1, Option.toList_none, List.append_nil, h, sub_eq_add_neg totalStaked,
      hs.total_changed htotal staker (-amount)]
    exact ⟨hnext.logged (decide_eq_false hsegment.2) s.unbondRequests,
      (projectedRewardPerToken_ok hrpt).1⟩
  | queued staker amount totalStaked rpt readyAt hcall hauth htotal hrpt henough hperiod h =>
    have hsegment : segmentOf i = none := by rw [segmentOf, hcall]
    have hnext := hs.settle hstakes hnow htotal hrpt staker
      (fun a ha => entry_insert_of_ne s.stakes (entry s.stakes staker - amount) ha)
    rw [hsegment, Option.toList_none, List.append_nil, h, sub_eq_add_neg totalStaked,
      hs.total_changed htotal staker (-amount)]
    exact ⟨{ hnext with }, (projectedRewardPerToken_ok hrpt).1⟩
  | unrewarded staker totalStaked rpt hcall htotal hrpt h =>
    have hsegment : segmentOf i = none := by rw [segmentOf, hcall]
    rw [hsegment, Option.toList_none, List.append_nil, h]
    exact ⟨hs.settle_only hstakes hnow htotal hrpt staker, (projectedRewardPerToken_ok hrpt).1⟩
  | rewarded staker rewardToken totalStaked rpt hcall htotal hrpt h =>
    have hsegment : segmentOf i = none := by rw [segmentOf, hcall]
    rw [hsegment, Option.toList_none, List.append_nil, h]
    exact ⟨(hs.settle_only hstakes hnow htotal hrpt staker).rewarded house rewardToken staker,
      (projectedRewardPerToken_ok hrpt).1⟩
  | withdrawn staker token hcall hauth htoken h =>
    have hsegment : segmentOf i = none := by rw [segmentOf, hcall]
    rw [hsegment, Option.toList_none, List.append_nil, h]
    exact ⟨hs.logged rfl (s.unbondRequests.erase staker), le_refl _⟩

end Steps

theorem initializeStaking_emitting {admin stakeToken rewardToken slashDestination : Address}
    {env : Env} {unbondingPeriod : ℕ} {s : State}
    (h : initializeStaking env admin stakeToken rewardToken unbondingPeriod slashDestination
      State.empty = .ok s) : Emitting [] s ∧ lastUpdateLedger s = env.sequence := by
  simp only [initializeStaking, bind_eq_ok, pure_eq_ok] at h
  obtain ⟨_, _, _, _, rfl⟩ := h
  refine ⟨⟨Option.some_ne_none admin, rfl, fun a => le_refl _, fun a => le_refl _,
    .inl ⟨rfl, rfl⟩, le_refl _, fun stakers => ?_⟩, rfl⟩
  refine le_of_eq (Finset.sum_eq_zero fun a _ => ?_)
  change rewardScale * (0 + 0) + 0 * (0 - 0) = 0
  simp

theorem exec_lastUpdateLedger {house : Address} (s : State) (i : Invocation house) (t : State)
    (h : exec i s = .ok t) : lastUpdateLedger t ≤ max (lastUpdateLedger s) i.sequence := by
  have hclock : lastUpdateLedger t = i.sequence ∨ lastUpdateLedger t = lastUpdateLedger s := by
    cases exec_move h with
    | initialized _ h =>
      left
      rw [lastUpdateLedger, h]
      rfl
    | rated _ _ _ _ _ _ _ _ _ h | staked _ _ _ _ _ _ _ _ _ _ _ h | unrewarded _ _ _ _ _ _ h
      | rewarded _ _ _ _ _ _ _ h | paid _ _ _ _ _ _ _ _ _ _ _ _ _ h
      | queued _ _ _ _ _ _ _ _ _ _ _ h =>
      left
      rw [h]
      rfl
    | withdrawn _ _ _ _ _ h =>
      right
      rw [h]
      rfl
  omega

theorem exec_stakes_nonneg {house : Address} {i : Invocation house} {s t : State}
    (hs : s.admin ≠ none ∧ NonnegEntries s.stakes)
    (htokens : ∀ token, i.tokens.RejectsNegative token) (h : exec i s = .ok t) :
    t.admin ≠ none ∧ NonnegEntries t.stakes := by
  obtain ⟨hadmin, hstakes⟩ := hs
  cases exec_move h with
  | initialized hnone => exact absurd hnone hadmin
  | staked staker token amount _ _ _ _ _ _ _ haccepts h =>
    have hamount : 0 ≤ amount := htokens token _ _ rfl haccepts
    have hold := hstakes.entry_nonneg staker
    rw [h]
    exact ⟨hadmin, hstakes.insert (by omega)⟩
  | paid _ _ _ _ _ _ _ _ _ _ henough _ _ h | queued _ _ _ _ _ _ _ _ _ henough _ h =>
    rw [h]
    exact ⟨hadmin, hstakes.insert (by omega)⟩
  | rated _ _ _ _ _ _ _ _ _ h | unrewarded _ _ _ _ _ _ h | rewarded _ _ _ _ _ _ _ h
    | withdrawn _ _ _ _ _ h =>
    rw [h]
    exact ⟨hadmin, hstakes⟩

theorem run_stakes_nonneg {house : Address} {s : State} {is : List (Invocation house)}
    (hs : s.admin ≠ none ∧ NonnegEntries s.stakes)
    (htokens : ∀ i ∈ is, ∀ token, i.tokens.RejectsNegative token) :
    ∀ js, js <+: is → NonnegEntries (run s js).stakes := by
  intro js hjs
  have hjtokens : ∀ i ∈ js, ∀ token, i.tokens.RejectsNegative token :=
    fun i hi => htokens i (hjs.subset hi)
  exact (run_invariant_along (fun _ _ _ hs hi hok => exec_stakes_nonneg hs hi.2 hok) hs
    ((along_true exec s js).and_forall hjtokens)).2

/-- `exec_emitting`, with the schedules read off the history. -/
theorem exec_emitting_past {house : Address} (past : List (Entry State (Invocation house))) (s : State)
    (i : Invocation house) (t : State) (hs : Emitting (segments past) s)
    (hi : NonnegEntries s.stakes ∧ lastUpdateLedger s ≤ i.sequence) (hok : exec i s = .ok t) :
    Emitting (segments (past ++ [⟨s, i, t⟩])) t := by
  have hnext := (exec_emitting hs hi.1 hi.2 hok).1
  unfold segments at hnext ⊢
  rw [List.filterMap_append, List.filterMap_cons, List.filterMap_nil]
  cases hsegment : segmentOf i with
  | none => simpa [hsegment] using hnext
  | some x => simpa [hsegment] using hnext

section Initialized
variable {house admin stakeToken rewardToken slashDestination : Address} {unbondingPeriod : ℕ}
  {i₀ : Invocation house} {s : State} {is : List (Invocation house)}

theorem emitting_along (hcall : i₀.call =
      .initializeStaking admin stakeToken rewardToken unbondingPeriod slashDestination)
    (hinit : exec i₀ State.empty = .ok s)
    (htime : (i₀ :: is).Pairwise (fun i j => i.sequence ≤ j.sequence))
    (hstakes : ∀ js, js <+: is → NonnegEntries (run s js).stakes) :
    Emitting [] s ∧
      Along exec (fun s i => NonnegEntries s.stakes ∧ lastUpdateLedger s ≤ i.sequence) s is := by
  have hs : Emitting [] s ∧ lastUpdateLedger s = i₀.sequence := by
    unfold exec at hinit
    rw [hcall] at hinit
    exact initializeStaking_emitting hinit
  rw [List.pairwise_cons] at htime
  have hclock : Along exec (fun s i => lastUpdateLedger s ≤ i.sequence) s is := by
    apply along_clock exec_lastUpdateLedger _ htime.2
    intro i hi
    rw [hs.2]
    exact htime.1 i hi
  have hnonneg : Along exec (fun s _ => NonnegEntries s.stakes) s is := along_of_prefixes hstakes
  exact ⟨hs.1, hnonneg.and hclock⟩

theorem run_emitting (hcall : i₀.call =
      .initializeStaking admin stakeToken rewardToken unbondingPeriod slashDestination)
    (hinit : exec i₀ State.empty = .ok s)
    (htime : (i₀ :: is).Pairwise (fun i j => i.sequence ≤ j.sequence))
    (hstakes : ∀ js, js <+: is → NonnegEntries (run s js).stakes) :
    Emitting (segments (history exec s is)) (run s is) := by
  obtain ⟨hs, halong⟩ := emitting_along hcall hinit htime hstakes
  exact history_invariant_along (I := fun past s => Emitting (segments past) s) exec_emitting_past
    hs halong

end Initialized

/-- In every run at non-decreasing ledgers whose stakes stay non-negative: what any stakers are
    owed, beside all rewards ever claimed, is at most what the schedules emitted, and the
    accumulator never decreases. -/
theorem emission_bound (house admin stakeToken rewardToken slashDestination : Address)
    (unbondingPeriod : ℕ) (i₀ : Invocation house) (s : State)
    (hcall : i₀.call =
      .initializeStaking admin stakeToken rewardToken unbondingPeriod slashDestination)
    (hinit : exec i₀ State.empty = .ok s) (is : List (Invocation house))
    (htime : (i₀ :: is).Pairwise (fun i j => i.sequence ≤ j.sequence))
    (hstakes : ∀ js, js <+: is → NonnegEntries (run s js).stakes) :
    (∀ now, lastUpdateLedger (run s is) ≤ now → ∀ stakers : Finset Address,
      claimed (run s is) + ∑ a ∈ stakers, earned (run s is) a ≤
        emitted (segments (history exec s is)) now ∧
      claimed (run s is) + ∑ a ∈ stakers, pendingRewards now (run s is) a ≤
        emitted (segments (history exec s is)) now) ∧
    ∀ e ∈ history exec s is, rewardPerToken e.before ≤ rewardPerToken e.after := by
  obtain ⟨hs, halong⟩ := emitting_along hcall hinit htime hstakes
  have hrun := run_emitting hcall hinit htime hstakes
  have hend := hstakes is (List.prefix_refl is)
  refine ⟨fun now hnow stakers => ?_, fun e he => ?_⟩
  · have hmore : emitted (segments (history exec s is)) (lastUpdateLedger (run s is)) ≤
        emitted (segments (history exec s is)) now := by
      have hrest := mul_nonneg hrun.rate_nonneg (Int.natCast_nonneg (elapsedLedgers now (run s is)))
      rw [hrun.emitted_advance hnow]
      omega
    have hstored : claimed (run s is) + ∑ a ∈ stakers, earned (run s is) a ≤
        emitted (segments (history exec s is)) now :=
      le_trans (hrun.credited_le hend (le_refl _) hrun.bounded stakers) hmore
    refine ⟨hstored, ?_⟩
    unfold pendingRewards
    rw [hrun.total_eq, Option.getD_some]
    cases hrpt : projectedRewardPerToken now (total (run s is).stakes) (run s is) with
    | error e => exact hstored
    | ok rpt =>
      exact hrun.credited_le hend (projectedRewardPerToken_ok hrpt).1
        (hrun.bounded_at hend hnow hrun.total_eq hrpt) stakers
  · obtain ⟨past, later, hsplit⟩ := List.append_of_mem he
    obtain ⟨hbefore, hi, hok⟩ := history_split
      (I := fun past s => Emitting (segments past) s) exec_emitting_past hs halong hsplit
    exact (exec_emitting hbefore hi.1 hi.2 hok).2

def emissionHouse : Address := ⟨40⟩
def emissionAlice : Address := ⟨45⟩

def emissionCall (sequence : ℕ) (call : Call) : Invocation emissionHouse where
  sequence := sequence
  auths := [⟨41⟩, emissionAlice]
  tokens := honestReplies fun _ _ => 1000
  call := call
  outside := by decide

def emissionInitialize : Invocation emissionHouse :=
  emissionCall 1 (.initializeStaking ⟨41⟩ ⟨42⟩ ⟨43⟩ 10 ⟨44⟩)

/-- Ten tokens a ledger for one staker, who claims at ledger 8. -/
def emissionRun : List (Invocation emissionHouse) :=
  [emissionCall 2 (.stake emissionAlice 100), emissionCall 3 (.setRewardRate 10 20),
    emissionCall 8 (.claimRewards emissionAlice)]

theorem emission_bound_demo :
    claimed (run (run State.empty [emissionInitialize]) emissionRun) +
        ∑ a ∈ {emissionAlice},
          pendingRewards 10 (run (run State.empty [emissionInitialize]) emissionRun) a ≤
      10 * (10 - 3) := by
  have hnonneg : ∀ js, js <+: emissionRun →
      NonnegEntries (run (run State.empty [emissionInitialize]) js).stakes := by
    apply run_stakes_nonneg ⟨Option.some_ne_none _, nonneg_empty⟩
    simp [emissionRun, emissionCall, honestReplies_rejectsNegative]
  have hemitted : emitted (segments (history exec (run State.empty [emissionInitialize])
      emissionRun)) 10 = 10 * (10 - 3) := by decide +kernel
  have hbound := ((emission_bound emissionHouse ⟨41⟩ ⟨42⟩ ⟨43⟩ ⟨44⟩ 10 emissionInitialize
    (run State.empty [emissionInitialize]) rfl rfl emissionRun (by decide) hnonneg).1 10
    (by decide +kernel) {emissionAlice}).2
  rw [hemitted] at hbound
  exact hbound

end SorobanKit.Staking
