import Mathlib.Tactic.Linarith
import SorobanKit.StakingEmission

set_option autoImplicit false

/-!
# The accumulator along different paths

An advance of the accumulator rounds down once. Advancing it at several ledgers rounds several
times, and the view that only projects it agrees with the call that stores it. What a staker has
earned is stored over the reward recorded before, also when it could not be computed.
-/
namespace SorobanKit.Staking
open CommonMath HostBalances HostInteger HostInvocation HostRuns HostTransfers

section Accrual
variable {s t u : State} {now first last : ℕ} {totalStaked rpt : ℤ}

theorem scaled_eq_ok_iff {a b denominator quotient : ℤ} (hproduct : 0 ≤ a * b)
    (hdenominator : 0 < denominator) :
    scaled a b denominator = .ok quotient ↔ InI128 (a * b) ∧ quotient = a * b / denominator := by
  rw [← mulDiv_eq_ok_iff hproduct hdenominator]
  unfold scaled
  cases mulDiv a b denominator with
  | error e => simp
  | ok q => simp

theorem accrue_of_projected (h : projectedRewardPerToken now totalStaked s = .ok rpt) :
    accrue now totalStaked s = .ok (s.advance now rpt) := by
  rw [accrue, h]
  rfl

/-- What an advance adds to the accumulator, while rewards are emitted and there is a stake. -/
def increment (now : ℕ) (totalStaked : ℤ) (s : State) : ℤ :=
  elapsedLedgers now s * rewardRate s * rewardScale / totalStaked

theorem increment_nonneg (hrate : 0 ≤ rewardRate s) (htotal : 0 ≤ totalStaked) :
    0 ≤ increment now totalStaked s :=
  Int.ediv_nonneg (mul_nonneg (mul_nonneg (Int.natCast_nonneg _) hrate) (by decide)) htotal

theorem projected_idle (h : rewardRate s ≤ 0 ∨ totalStaked ≤ 0) :
    projectedRewardPerToken now totalStaked s = .ok (rewardPerToken s) := by
  rw [projectedRewardPerToken, if_pos (.inr h)]
  rfl

theorem projected_eq_ok_iff (hfits : InI128 (rewardPerToken s)) (hrate : 0 < rewardRate s)
    (htotal : 0 < totalStaked) :
    projectedRewardPerToken now totalStaked s = .ok rpt ↔
      InI128 (elapsedLedgers now s * rewardRate s * rewardScale) ∧
        InI128 (rewardPerToken s + increment now totalStaked s) ∧
        rpt = rewardPerToken s + increment now totalStaked s := by
  unfold projectedRewardPerToken
  by_cases helapsed : elapsedLedgers now s = 0
  · have hzero : increment now totalStaked s = 0 := by simp [increment, helapsed]
    have hproduct : InI128 (elapsedLedgers now s * rewardRate s * rewardScale) := by
      rw [helapsed]
      simp [InI128]
    rw [if_pos (.inl helapsed), pure_eq_ok, hzero, add_zero]
    exact ⟨fun h => ⟨hproduct, hfits, h.symm⟩, fun h => h.2.2.symm⟩
  · have hnumerator : 0 ≤ elapsedLedgers now s * rewardRate s :=
      mul_nonneg (Int.natCast_nonneg _) hrate.le
    have hproduct : 0 ≤ elapsedLedgers now s * rewardRate s * rewardScale :=
      mul_nonneg hnumerator (by decide)
    rw [if_neg (by omega)]
    simp only [bind_eq_ok, okOr_eq_ok, checkedMul_eq_some, checkedAdd_eq_some]
    constructor
    · rintro ⟨_, ⟨-, rfl⟩, delta, hdelta, hsum, rfl⟩
      obtain ⟨hfit, rfl⟩ := (scaled_eq_ok_iff hproduct htotal).mp hdelta
      exact ⟨hfit, hsum, rfl⟩
    · rintro ⟨hfit, hsum, rfl⟩
      have hle : elapsedLedgers now s * rewardRate s ≤
          elapsedLedgers now s * rewardRate s * rewardScale := by
        unfold rewardScale
        omega
      refine ⟨_, ⟨⟨by omega, hle.trans hfit.2⟩, rfl⟩, increment now totalStaked s, ?_, hsum, rfl⟩
      exact (scaled_eq_ok_iff hproduct htotal).mpr ⟨hfit, rfl⟩

theorem elapsedLedgers_split (hlast : lastUpdateLedger s ≤ first) (hle : first ≤ now) (rpt : ℤ) :
    elapsedLedgers now s = elapsedLedgers first s + elapsedLedgers now (s.advance first rpt) := by
  change min now (periodEnd s) - min (lastUpdateLedger s) (periodEnd s) =
    min first (periodEnd s) - min (lastUpdateLedger s) (periodEnd s) +
      (min now (periodEnd s) - min first (periodEnd s))
  omega

theorem ediv_add_bounds {a b d : ℤ} (hd : 0 < d) :
    a / d + b / d ≤ (a + b) / d ∧ (a + b) / d ≤ a / d + b / d + 1 := by
  have ha := Int.mul_ediv_add_emod a d
  have hb := Int.mul_ediv_add_emod b d
  have hamod := Int.emod_lt_of_pos a hd
  have hbmod := Int.emod_lt_of_pos b hd
  have hanonneg := Int.emod_nonneg a hd.ne'
  have hbnonneg := Int.emod_nonneg b hd.ne'
  constructor
  · apply (Int.le_ediv_iff_mul_le hd).mpr
    linarith [mul_add d (a / d) (b / d), mul_comm d (a / d + b / d)]
  · apply Int.lt_add_one_iff.mp
    apply (Int.ediv_lt_iff_lt_mul hd).mpr
    linarith [mul_add d (a / d) (b / d), mul_comm d (a / d + b / d), add_mul (a / d + b / d) 2 d]

theorem increment_split (hlast : lastUpdateLedger s ≤ first) (hle : first ≤ now)
    (htotal : 0 < totalStaked) (rpt : ℤ) :
    increment first totalStaked s + increment now totalStaked (s.advance first rpt) ≤
        increment now totalStaked s ∧
      increment now totalStaked s ≤
        increment first totalStaked s + increment now totalStaked (s.advance first rpt) + 1 := by
  have hproducts : (elapsedLedgers now s : ℤ) * rewardRate s * rewardScale =
      elapsedLedgers first s * rewardRate s * rewardScale +
        elapsedLedgers now (s.advance first rpt) * rewardRate s * rewardScale := by
    rw [elapsedLedgers_split hlast hle rpt]
    push_cast
    ring
  unfold increment
  rw [hproducts]
  exact ediv_add_bounds htotal

theorem emitted_fits {less more : ℕ} (hrate : 0 ≤ rewardRate s) (hle : less ≤ more)
    (h : InI128 (more * rewardRate s * rewardScale)) : InI128 (less * rewardRate s * rewardScale) := by
  have hfewer : (less : ℤ) * rewardRate s * rewardScale ≤ more * rewardRate s * rewardScale :=
    mul_le_mul_of_nonneg_right (mul_le_mul_of_nonneg_right (by omega) hrate) (by decide)
  have hpos : 0 ≤ (less : ℤ) * rewardRate s * rewardScale :=
    mul_nonneg (mul_nonneg (Int.natCast_nonneg _) hrate) (by decide)
  exact ⟨by omega, hfewer.trans h.2⟩

theorem accrue_split (hfits : InI128 (rewardPerToken s)) (hlast : lastUpdateLedger s ≤ first)
    (hle : first ≤ now) (h : accrue now totalStaked s = .ok u) :
    ∃ s' u', accrue first totalStaked s = .ok s' ∧ accrue now totalStaked s' = .ok u' ∧
      InI128 (rewardPerToken s') ∧ lastUpdateLedger s' = first ∧
      rewardPerToken u' ≤ rewardPerToken u ∧ rewardPerToken u ≤ rewardPerToken u' + 1 := by
  obtain ⟨rpt, hrpt, rfl⟩ := accrue_ok h
  by_cases hidle : rewardRate s ≤ 0 ∨ totalStaked ≤ 0
  · -- nothing is emitted, and the accumulator stands still
    rw [projected_idle hidle] at hrpt
    cases hrpt
    have hfirst : accrue first totalStaked s = .ok (s.advance first (rewardPerToken s)) :=
      accrue_of_projected (projected_idle hidle)
    have hsecond : accrue now totalStaked (s.advance first (rewardPerToken s)) =
        .ok ((s.advance first (rewardPerToken s)).advance now (rewardPerToken s)) :=
      accrue_of_projected (projected_idle hidle)
    exact ⟨_, _, hfirst, hsecond, hfits, rfl, le_refl _, by
      change rewardPerToken s ≤ rewardPerToken s + 1
      omega⟩
  · push Not at hidle
    obtain ⟨hrate, htotal⟩ := hidle
    obtain ⟨hproduct, hsum, rfl⟩ := (projected_eq_ok_iff hfits hrate htotal).mp hrpt
    let s' := s.advance first (rewardPerToken s + increment first totalStaked s)
    have hrate' : 0 < rewardRate s' := hrate
    have hmore : increment first totalStaked s + increment now totalStaked s' ≤
        increment now totalStaked s := (increment_split hlast hle htotal _).1
    have hless : increment now totalStaked s ≤
        increment first totalStaked s + increment now totalStaked s' + 1 :=
      (increment_split hlast hle htotal _).2
    have hnonneg : 0 ≤ increment first totalStaked s := increment_nonneg hrate.le htotal.le
    have hnonneg' : 0 ≤ increment now totalStaked s' := increment_nonneg hrate'.le htotal.le
    have hsplit : elapsedLedgers now s = elapsedLedgers first s + elapsedLedgers now s' :=
      elapsedLedgers_split hlast hle _
    have hsum' : InI128 (rewardPerToken s') := by
      change InI128 (rewardPerToken s + increment first totalStaked s)
      unfold InI128 at hfits hsum ⊢
      omega
    have hsum'' : InI128 (rewardPerToken s' + increment now totalStaked s') := by
      change InI128 (rewardPerToken s + increment first totalStaked s + increment now totalStaked s')
      unfold InI128 at hfits hsum ⊢
      omega
    have hfirst := accrue_of_projected ((projected_eq_ok_iff hfits hrate htotal).mpr
      ⟨emitted_fits hrate.le (by omega) hproduct, hsum', rfl⟩)
    have hsecond := accrue_of_projected ((projected_eq_ok_iff hsum' hrate' htotal).mpr
      ⟨emitted_fits hrate.le (by omega) hproduct, hsum'', rfl⟩)
    refine ⟨s', _, hfirst, hsecond, hsum', rfl, ?_, ?_⟩
    · change rewardPerToken s + increment first totalStaked s + increment now totalStaked s' ≤
        rewardPerToken s + increment now totalStaked s
      omega
    · change rewardPerToken s + increment now totalStaked s ≤
        rewardPerToken s + increment first totalStaked s + increment now totalStaked s' + 1
      omega

/-- Accruing at one ledger after the other. -/
def accrueAt (ledgers : List ℕ) (totalStaked : ℤ) (s : State) : Result StakingError State :=
  ledgers.foldlM (fun s now => accrue now totalStaked s) s

theorem accrueAt_bounds {ledgers : List ℕ} (hfits : InI128 (rewardPerToken s))
    (hlast : lastUpdateLedger s ≤ first) (hsorted : (first :: ledgers).Pairwise (· ≤ ·))
    (h : accrue ((first :: ledgers).getLast (List.cons_ne_nil _ _)) totalStaked s = .ok u) :
    ∃ v, accrueAt (first :: ledgers) totalStaked s = .ok v ∧
      rewardPerToken v ≤ rewardPerToken u ∧
      rewardPerToken u ≤ rewardPerToken v + ledgers.length := by
  induction ledgers generalizing s u first with
  | nil =>
    refine ⟨u, ?_, le_refl _, by simp⟩
    simp only [accrueAt, List.foldlM_cons, List.foldlM_nil]
    rw [List.getLast_singleton] at h
    rw [h]
    rfl
  | cons second ledgers ih =>
    obtain ⟨hfirst, hrest⟩ := List.pairwise_cons.mp hsorted
    rw [List.getLast_cons (List.cons_ne_nil _ _)] at h
    have hend := hfirst _ (List.getLast_mem (List.cons_ne_nil second ledgers))
    obtain ⟨s', u', hs', hu', hfits', hclock, hle, hge⟩ := accrue_split hfits hlast hend h
    obtain ⟨v, hv, hvle, hvge⟩ := ih hfits'
      (by rw [hclock]; exact hfirst second List.mem_cons_self) hrest hu'
    refine ⟨v, ?_, hvle.trans hle, ?_⟩
    · rw [accrueAt, List.foldlM_cons, hs']
      exact hv
    · push_cast [List.length_cons]
      omega

variable {house staker : Address} {env : Env}

theorem recorded_pendingRewards (h : accrue now (s.totalStaked.getD 0) s = .ok t) :
    entry (updateReward staker t).rewards staker = pendingRewards now s staker := by
  obtain ⟨rpt, hrpt, rfl⟩ := accrue_ok h
  rw [pendingRewards, hrpt]
  exact entry_insert_self _ _ _

theorem claimRewards_pays (h : claimRewards house env staker s = .ok t) :
    (0 < pendingRewards env.sequence s staker → ∃ rewardToken, s.rewardToken = some rewardToken ∧
        t.transfers = s.transfers ++ [⟨.reward, rewardToken, house, staker,
          pendingRewards env.sequence s staker⟩] ∧ entry t.rewards staker = 0) ∧
      (pendingRewards env.sequence s staker ≤ 0 → t.transfers = s.transfers ∧
        entry t.rewards staker = pendingRewards env.sequence s staker) := by
  simp only [claimRewards, bind_eq_ok, getInstance, okOr_eq_ok] at h
  obtain ⟨-, -, totalStaked, htotal, advanced, hadvance, h⟩ := h
  have hrecorded : entry (updateReward staker advanced).rewards staker =
      pendingRewards env.sequence s staker := by
    apply recorded_pendingRewards
    rw [htotal]
    exact hadvance
  obtain ⟨rpt, -, rfl⟩ := accrue_ok hadvance
  rw [payReward, hrecorded] at h
  constructor
  · intro hpos
    simp only [if_pos hpos, bind_eq_ok, getInstance, okOr_eq_ok, pure_eq_ok] at h
    obtain ⟨rewardToken, htoken, paid, hpaid, rfl⟩ := h
    obtain ⟨-, rfl⟩ := recordTransfer_eq_ok.mp hpaid
    exact ⟨rewardToken, htoken, rfl, entry_insert_self _ _ _⟩
  · intro hnone
    rw [if_neg (by omega), pure_eq_ok] at h
    subst h
    exact ⟨rfl, hrecorded⟩

theorem calculateEarned_eq_some_iff {stake paid : ℤ} (accrued amount : ℤ) (hstake : 0 ≤ stake)
    (hpaid : paid ≤ rpt) :
    calculateEarned stake rpt paid accrued = some amount ↔
      InI128 (rpt - paid) ∧ InI128 (stake * (rpt - paid)) ∧
        InI128 (accrued + stake * (rpt - paid) / rewardScale) ∧
        amount = accrued + stake * (rpt - paid) / rewardScale := by
  have hproduct : 0 ≤ stake * (rpt - paid) := mul_nonneg hstake (by omega)
  have hscale : 0 < rewardScale := by decide
  simp only [calculateEarned, Option.bind_eq_bind, Option.bind_eq_some_iff, checkedSub_eq_some,
    checkedAdd_eq_some]
  constructor
  · rintro ⟨_, ⟨hdelta, rfl⟩, share, hshare, hsum, rfl⟩
    obtain ⟨hfit, rfl⟩ := (mulDiv_eq_ok_iff hproduct hscale).mp (toOption_eq_some.mp hshare)
    exact ⟨hdelta, hfit, hsum, rfl⟩
  · rintro ⟨hdelta, hfit, hsum, rfl⟩
    refine ⟨_, ⟨hdelta, rfl⟩, stake * (rpt - paid) / rewardScale, ?_, hsum, rfl⟩
    exact toOption_eq_some.mpr ((mulDiv_eq_ok_iff hproduct hscale).mpr ⟨hfit, rfl⟩)

theorem recorded_le_earned_iff (hstake : 0 ≤ entry s.stakes staker)
    (hrewards : 0 ≤ entry s.rewards staker) (hpaid : entry s.rewardPerTokenPaid staker ≤ rpt) :
    entry s.rewards staker ≤ earnedAtRewardPerToken s staker rpt ↔
      entry s.rewards staker = 0 ∨
        InI128 (rpt - entry s.rewardPerTokenPaid staker) ∧
          InI128 (entry s.stakes staker * (rpt - entry s.rewardPerTokenPaid staker)) ∧
          InI128 (entry s.rewards staker +
            entry s.stakes staker * (rpt - entry s.rewardPerTokenPaid staker) / rewardScale) := by
  have hspec := fun amount =>
    calculateEarned_eq_some_iff (entry s.rewards staker) amount hstake hpaid
  unfold earnedAtRewardPerToken
  cases hearned : calculateEarned (entry s.stakes staker) rpt (entry s.rewardPerTokenPaid staker)
    (entry s.rewards staker) with
  | none =>
    -- the default is stored in place of the reward
    rw [Option.getD_none]
    constructor
    · intro hle
      exact .inl (by omega)
    · rintro (hzero | ⟨hdelta, hfit, hsum⟩)
      · omega
      · have hsome := (hspec _).mpr ⟨hdelta, hfit, hsum, rfl⟩
        rw [hearned] at hsome
        cases hsome
  | some amount =>
    obtain ⟨hdelta, hfit, hsum, rfl⟩ := (hspec amount).mp hearned
    have hshare : 0 ≤ entry s.stakes staker * (rpt - entry s.rewardPerTokenPaid staker) / rewardScale :=
      Int.ediv_nonneg (mul_nonneg hstake (by omega)) (by decide)
    rw [Option.getD_some]
    exact ⟨fun _ => .inr ⟨hdelta, hfit, hsum⟩, fun _ => by omega⟩

end Accrual

/-- For accruals at ledgers that do not decrease, where one accrual at the last ledger succeeds:
    all of them do, and what they store is at most what the one would store and at most as many
    units below as there are ledgers before the last. And wherever accruing succeeds, the view
    shows what is recorded, which is what a claim pays. -/
theorem accrual_paths (s : State) :
    (∀ (totalStaked : ℤ) (first : ℕ) (ledgers : List ℕ) (u : State), InI128 (rewardPerToken s) →
      lastUpdateLedger s ≤ first → (first :: ledgers).Pairwise (· ≤ ·) →
      accrue ((first :: ledgers).getLast (List.cons_ne_nil _ _)) totalStaked s = .ok u →
      ∃ v, (first :: ledgers).foldlM (fun s now => accrue now totalStaked s) s = .ok v ∧
        rewardPerToken v ≤ rewardPerToken u ∧
        rewardPerToken u ≤ rewardPerToken v + ledgers.length) ∧
    (∀ (now : ℕ) (staker : Address) (t : State), accrue now (s.totalStaked.getD 0) s = .ok t →
      entry (updateReward staker t).rewards staker = pendingRewards now s staker) ∧
    ∀ (house staker : Address) (env : Env) (t : State), claimRewards house env staker s = .ok t →
      (0 < pendingRewards env.sequence s staker → ∃ rewardToken, s.rewardToken = some rewardToken ∧
        t.transfers = s.transfers ++ [⟨.reward, rewardToken, house, staker,
          pendingRewards env.sequence s staker⟩] ∧ entry t.rewards staker = 0) ∧
      (pendingRewards env.sequence s staker ≤ 0 → t.transfers = s.transfers ∧
        entry t.rewards staker = pendingRewards env.sequence s staker) :=
  ⟨fun _ _ _ _ hfits hlast hsorted h => accrueAt_bounds hfits hlast hsorted h,
    fun _ _ _ h => recorded_pendingRewards h, fun _ _ _ _ h => claimRewards_pays h⟩

/-- Three tokens share one a ledger, from ledger 3 on. -/
def dustState : State :=
  run (run State.empty [emissionInitialize])
    [emissionCall 2 (.stake emissionAlice 3), emissionCall 3 (.setRewardRate 1 20)]

theorem accrual_paths_demo :
    ∃ u v, accrue 9 3 dustState = .ok u ∧
      [4, 6, 9].foldlM (fun s now => accrue now 3 s) dustState = .ok v ∧
      rewardPerToken v ≤ rewardPerToken u ∧ rewardPerToken u ≤ rewardPerToken v + 2 := by
  obtain ⟨u, hu⟩ : ∃ u, accrue 9 3 dustState = .ok u := ⟨_, rfl⟩
  obtain ⟨v, hv, hle, hge⟩ := (accrual_paths dustState).1 3 4 [6, 9] u (by decide +kernel)
    (by decide +kernel) (by decide) hu
  exact ⟨u, v, hu, hv, hle, hge⟩

/-- A stop at ledger 4 on the way to ledger 6 costs a whole unit. -/
theorem accrual_unit_lost :
    ∃ u v, accrue 6 3 dustState = .ok u ∧
      [4, 6].foldlM (fun s now => accrue now 3 s) dustState = .ok v ∧
      rewardPerToken u = 1000000000000 ∧ rewardPerToken v = 999999999999 ∧
      ¬ rewardPerToken u < rewardPerToken v + 1 :=
  ⟨_, _, rfl, rfl, by decide +kernel, by decide +kernel, by decide +kernel⟩

/-- In every state that a run reaches, and at every ledger at which the accumulator advances,
    settling a staker keeps what is recorded for them exactly when nothing is recorded or no step
    of what they earned overflows. -/
theorem updateReward_keeps_iff (house admin stakeToken rewardToken slashDestination : Address)
    (unbondingPeriod : ℕ) (i₀ : Invocation house) (s : State)
    (hcall : i₀.call =
      .initializeStaking admin stakeToken rewardToken unbondingPeriod slashDestination)
    (hinit : exec i₀ State.empty = .ok s) (is : List (Invocation house))
    (htime : (i₀ :: is).Pairwise (fun i j => i.sequence ≤ j.sequence))
    (htokens : ∀ i ∈ is, ∀ token, i.tokens.RejectsNegative token) (now : ℕ) (totalStaked : ℤ)
    (t : State) (htotal : (run s is).totalStaked = some totalStaked)
    (haccrue : accrue now totalStaked (run s is) = .ok t) (staker : Address) :
    entry (run s is).rewards staker ≤ entry (updateReward staker t).rewards staker ↔
      entry (run s is).rewards staker = 0 ∨
        InI128 (rewardPerToken t - entry (run s is).rewardPerTokenPaid staker) ∧
          InI128 (entry (run s is).stakes staker *
            (rewardPerToken t - entry (run s is).rewardPerTokenPaid staker)) ∧
          InI128 (entry (run s is).rewards staker + entry (run s is).stakes staker *
            (rewardPerToken t - entry (run s is).rewardPerTokenPaid staker) / rewardScale) := by
  have hadmin : s.admin ≠ none := by
    unfold exec at hinit
    rw [hcall] at hinit
    exact (initializeStaking_emitting hinit).1.admin_ne
  have hempty : NonnegEntries s.stakes := by
    unfold exec at hinit
    rw [hcall] at hinit
    simp only [initializeStaking, bind_eq_ok, pure_eq_ok] at hinit
    obtain ⟨-, -, -, -, rfl⟩ := hinit
    exact nonneg_empty
  have hstakes := run_stakes_nonneg ⟨hadmin, hempty⟩ htokens
  have hrun := run_emitting hcall hinit htime hstakes
  obtain ⟨rpt, hrpt, rfl⟩ := accrue_ok haccrue
  have hgrow := (projectedRewardPerToken_ok hrpt).1
  have hrecorded : entry (updateReward staker ((run s is).advance now rpt)).rewards staker =
      earnedAtRewardPerToken (run s is) staker rpt := entry_insert_self _ _ _
  rw [hrecorded]
  exact recorded_le_earned_iff ((hstakes is (List.prefix_refl is)).entry_nonneg staker)
    (hrun.rewards_nonneg staker) ((hrun.paid_le staker).trans hgrow)

theorem updateReward_keeps_iff_demo :
    ∃ t, accrue 10 100 (run (run State.empty [emissionInitialize]) emissionRun) = .ok t ∧
      entry (run (run State.empty [emissionInitialize]) emissionRun).rewards emissionAlice ≤
        entry (updateReward emissionAlice t).rewards emissionAlice := by
  obtain ⟨t, ht⟩ : ∃ t, accrue 10 100 (run (run State.empty [emissionInitialize]) emissionRun) = .ok t :=
    ⟨_, rfl⟩
  have hkeeps := updateReward_keeps_iff emissionHouse ⟨41⟩ ⟨42⟩ ⟨43⟩ ⟨44⟩ 10 emissionInitialize
    (run State.empty [emissionInitialize]) rfl rfl emissionRun (by decide)
    (by simp [emissionRun, emissionCall, honestReplies_rejectsNegative]) 10 100 t (by decide +kernel)
    ht emissionAlice
  exact ⟨t, ht, hkeeps.mpr (.inl (by decide +kernel))⟩

/-- A hundred million tokens a ledger, of eighteen decimals. Alice settles at ledger 4 and then
    waits, while the accumulator is advanced at ledgers 5 and 6 by someone without a stake. -/
def lossRun : List (Invocation emissionHouse) :=
  [emissionCall 2 (.stake emissionAlice 100),
    emissionCall 3 (.setRewardRate 100000000000000000000000000 20),
    emissionCall 4 (.stake emissionAlice 1), emissionCall 5 (.claimRewards ⟨41⟩),
    emissionCall 6 (.claimRewards ⟨41⟩)]

def lossState : State := run (run State.empty [emissionInitialize]) lossRun

/-- At ledger 7 the share of Alice does not fit, and nothing is stored over her reward. -/
theorem updateReward_drops :
    ∃ t, accrue 7 101 lossState = .ok t ∧ lossState.totalStaked = some 101 ∧
      entry lossState.rewards emissionAlice = 100000000000000000000000000 ∧
      entry (updateReward emissionAlice t).rewards emissionAlice = 0 ∧
      entry (updateReward emissionAlice t).rewardPerTokenPaid emissionAlice = rewardPerToken t :=
  ⟨_, rfl, by decide +kernel, by decide +kernel, by decide +kernel, by decide +kernel⟩

end SorobanKit.Staking
