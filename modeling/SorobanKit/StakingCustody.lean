import SorobanKit.StakingMoves

set_option autoImplicit false

/-!
# Custody of the staked tokens

The contract holds the stakes and the amounts queued for withdrawal. `unstake` keeps that
only while it queues a non-negative amount beside no other: it overwrites an earlier request,
and a negative amount is queued without a transfer that could refuse it.
-/
namespace SorobanKit.Staking
open HostBalances HostInteger HostInvocation HostRuns HostTransfers

/-- The sum of the queued amounts. -/
def queued (s : State) : ℤ := sumBy (fun _ req => req.amount) s.unbondRequests

/-- An `unstake` that the checks let pass and that is queued. -/
def Queues {house : Address} (s : State) (i : Invocation house) (staker : Address) (amount : ℤ) :
    Prop :=
  i.call = .unstake staker amount ∧ staker ∈ i.auths ∧ amount ≤ entry s.stakes staker ∧
    s.unbondingPeriod.getD 0 ≠ 0

/-- A request is queued over one that was not withdrawn. -/
def Overwrites {house : Address} (s : State) (i : Invocation house) : Prop :=
  ∃ staker amount, Queues s i staker amount ∧ queuedOf s staker ≠ 0

/-- A negative amount is queued. -/
def QueuesNegative {house : Address} (s : State) (i : Invocation house) : Prop :=
  ∃ staker amount, Queues s i staker amount ∧ amount < 0

/-- Slashed tokens stay in the contract. -/
def SlashesToItself {house : Address} (s : State) (i : Invocation house) : Prop :=
  ∃ staker amount, i.call = .slash staker amount ∧ amount ≠ 0 ∧ s.slashDestination = some house

structure Custody (house stakeToken : Address) (s : State) : Prop where
  admin_ne : s.admin ≠ none
  token_eq : s.stakeToken = some stakeToken
  total_eq : s.totalStaked = some (total s.stakes)
  stakes_nonneg : NonnegEntries s.stakes
  queued_nonneg : ∀ staker req, s.unbondRequests.lookup staker = some req → 0 ≤ req.amount
  gain_eq : gain stakeToken house s.transfers = total s.stakes + queued s

section Steps
variable {house stakeToken : Address} {i : Invocation house} {s t : State}

theorem Invocation.ne_house {a : Address} (h : a ∈ i.auths) : a ≠ house := by
  rintro rfl
  exact i.outside h

theorem Custody.token_unique (hs : Custody house stakeToken s) {other : Address}
    (h : s.stakeToken = some other) : other = stakeToken := by
  rw [hs.token_eq] at h
  exact (Option.some.inj h).symm

theorem Custody.total_unique (hs : Custody house stakeToken s) {totalStaked : ℤ}
    (h : s.totalStaked = some totalStaked) : totalStaked = total s.stakes := by
  rw [hs.total_eq] at h
  exact (Option.some.inj h).symm

theorem Custody.settled (hs : Custody house stakeToken s) (staker : Address) (now : ℕ) (rpt : ℤ) :
    Custody house stakeToken (updateReward staker (s.advance now rpt)) :=
  { hs with }

/-- A stake changes by what the contract receives or pays for it. -/
theorem Custody.moved {staker : Address} {change : ℤ} (hs : Custody house stakeToken s)
    (log : List (Transfer Purpose)) (hnonneg : 0 ≤ entry s.stakes staker + change)
    (hgain : gain stakeToken house log = change) :
    Custody house stakeToken { s with
      stakes := s.stakes.insert staker (entry s.stakes staker + change),
      totalStaked := some (total s.stakes + change),
      transfers := s.transfers ++ log } := by
  have hheld := hs.gain_eq
  refine { hs with
    total_eq := ?_
    stakes_nonneg := hs.stakes_nonneg.insert hnonneg
    gain_eq := ?_ }
  · dsimp only
    rw [total_insert]
    congr 1
    omega
  · dsimp only [queued] at hheld ⊢
    rw [gain_append, hgain, total_insert]
    omega

theorem Custody.queue {staker : Address} {amount : ℤ} (hs : Custody house stakeToken s)
    (readyAt : ℕ) (henough : amount ≤ entry s.stakes staker) (hnonneg : 0 ≤ amount)
    (hnone : queuedOf s staker = 0) :
    Custody house stakeToken { s with
      stakes := s.stakes.insert staker (entry s.stakes staker - amount),
      totalStaked := some (total s.stakes - amount),
      unbondRequests := s.unbondRequests.insert staker ⟨amount, readyAt⟩ } := by
  have hheld := hs.gain_eq
  unfold queuedOf at hnone
  refine { hs with
    total_eq := ?_
    stakes_nonneg := hs.stakes_nonneg.insert (by omega)
    queued_nonneg := fun holder req hreq => ?_
    gain_eq := ?_ }
  · dsimp only
    rw [total_insert]
    congr 1
    omega
  · by_cases hsame : holder = staker
    · subst hsame
      rw [Finmap.lookup_insert] at hreq
      cases hreq
      exact hnonneg
    · rw [Finmap.lookup_insert_of_ne _ hsame] at hreq
      exact hs.queued_nonneg holder req hreq
  · dsimp only [queued] at hheld ⊢
    rw [total_insert, sumBy_insert, hnone]
    dsimp only
    omega

theorem Custody.withdrawn {staker : Address} (hs : Custody house stakeToken s)
    (hne : staker ≠ house) :
    Custody house stakeToken { s with
      unbondRequests := s.unbondRequests.erase staker,
      transfers := s.transfers ++
        [⟨.withdrawal, stakeToken, house, staker, queuedOf s staker⟩] } := by
  have hheld := hs.gain_eq
  refine { hs with
    queued_nonneg := fun holder req hreq => ?_
    gain_eq := ?_ }
  · by_cases hsame : holder = staker
    · subst hsame
      rw [Finmap.lookup_erase] at hreq
      cases hreq
    · rw [Finmap.lookup_erase_ne hsame] at hreq
      exact hs.queued_nonneg holder req hreq
  · dsimp only [queued, queuedOf] at hheld ⊢
    rw [gain_append, gain_outgoing _ _ hne, sumBy_erase]
    omega

theorem exec_custody (hs : Custody house stakeToken s)
    (hclaim : ∀ staker, i.call ≠ .claimRewards staker)
    (htokens : i.tokens.RejectsNegative stakeToken)
    (hsafe : ¬ Overwrites s i ∧ ¬ QueuesNegative s i ∧ ¬ SlashesToItself s i)
    (h : exec i s = .ok t) : Custody house stakeToken t := by
  obtain ⟨hover, hnegative, hself⟩ := hsafe
  cases exec_move h with
  | initialized hnone => exact absurd hnone hs.admin_ne
  | unrewarded staker _ _ hcall => exact absurd hcall (hclaim staker)
  | rewarded staker _ _ _ hcall => exact absurd hcall (hclaim staker)
  | rated rewardRate totalStaked rpt periodEnd hcall hrate hend htotal hrpt h =>
    subst h
    exact { hs with }
  | staked staker token amount totalStaked rpt hcall hauth htotal hrpt htoken haccepts h =>
    obtain rfl := hs.token_unique htoken
    obtain rfl := hs.total_unique htotal
    have hamount : 0 ≤ amount := htokens _ _ rfl haccepts
    have hstake := hs.stakes_nonneg.entry_nonneg staker
    have hgain : gain token house [⟨Purpose.stake, token, staker, house, amount⟩] = amount :=
      gain_incoming _ _ (Invocation.ne_house hauth)
    subst h
    exact (hs.settled staker i.sequence rpt).moved _ (by change 0 ≤ entry s.stakes staker + amount; omega)
      hgain
  | paid staker token target amount totalStaked rpt purpose hpaid htotal hrpt henough htoken haccepts
      h =>
    obtain rfl := hs.token_unique htoken
    obtain rfl := hs.total_unique htotal
    have hamount := htokens _ _ rfl haccepts
    have hgain : gain token house [⟨purpose, token, house, target, amount⟩] = -amount := by
      rcases hpaid with ⟨_, hauth, rfl, _⟩ | ⟨hcall, hdest, _⟩
      · exact gain_outgoing _ _ (Invocation.ne_house hauth)
      · by_cases hne : target = house
        · have hzero : amount = 0 := by
            by_contra hsome
            exact hself ⟨staker, amount, hcall, hsome, by rw [hdest, hne]⟩
          rw [hne, hzero]
          exact gain_to_itself _ _
        · exact gain_outgoing _ _ hne
    subst h
    exact (hs.settled staker i.sequence rpt).moved _
      (by change 0 ≤ entry s.stakes staker + -amount; omega) hgain
  | queued staker amount totalStaked rpt readyAt hcall hauth htotal hrpt henough hperiod h =>
    obtain rfl := hs.total_unique htotal
    have hqueues : Queues s i staker amount := ⟨hcall, hauth, henough, hperiod⟩
    have hnonneg : 0 ≤ amount := by
      by_contra hneg
      exact hnegative ⟨staker, amount, hqueues, by omega⟩
    have hnone : queuedOf s staker = 0 := by
      by_contra hsome
      exact hover ⟨staker, amount, hqueues, hsome⟩
    subst h
    exact (hs.settled staker i.sequence rpt).queue readyAt henough hnonneg hnone
  | withdrawn staker token hcall hauth htoken h =>
    obtain rfl := hs.token_unique htoken
    subst h
    exact hs.withdrawn (Invocation.ne_house hauth)

end Steps

theorem initializeStaking_custody {house admin stakeToken rewardToken slashDestination : Address}
    {env : Env} {unbondingPeriod : ℕ} {s : State}
    (h : initializeStaking env admin stakeToken rewardToken unbondingPeriod slashDestination
      State.empty = .ok s) : Custody house stakeToken s := by
  simp only [initializeStaking, bind_eq_ok, pure_eq_ok] at h
  obtain ⟨_, _, _, _, rfl⟩ := h
  refine ⟨Option.some_ne_none admin, rfl, rfl, nonneg_empty, fun staker req hreq => ?_, rfl⟩
  simp [State.empty] at hreq

/-- The calls of a run that moves stakes only. -/
def Call.MovesStakes (call : Call) : Prop := ∀ staker, call ≠ .claimRewards staker

/-- In every run of calls that queue no negative amount and no request over another, and slash
    to another address: the contract holds the stakes and the queued amounts. -/
theorem stake_custody (house admin stakeToken rewardToken slashDestination : Address)
    (unbondingPeriod : ℕ) (i₀ : Invocation house) (s : State)
    (hcall : i₀.call =
      .initializeStaking admin stakeToken rewardToken unbondingPeriod slashDestination)
    (hinit : exec i₀ State.empty = .ok s) (is : List (Invocation house))
    (hcalls : ∀ i ∈ is, i.call.MovesStakes)
    (htokens : ∀ i ∈ is, i.tokens.RejectsNegative stakeToken)
    (hsafe : Along exec
      (fun s i => ¬ Overwrites s i ∧ ¬ QueuesNegative s i ∧ ¬ SlashesToItself s i) s is) :
    (run s is).totalStaked = some (total (run s is).stakes) ∧
      NonnegEntries (run s is).stakes ∧
      (∀ staker req, (run s is).unbondRequests.lookup staker = some req → 0 ≤ req.amount) ∧
      ∀ ledger : Ledger, replay ledger (run s is).transfers stakeToken house =
        ledger stakeToken house + total (run s is).stakes + queued (run s is) := by
  have hs : Custody house stakeToken s := by
    unfold exec at hinit
    rw [hcall] at hinit
    exact initializeStaking_custody hinit
  have hall : ∀ i ∈ is, i.call.MovesStakes ∧ i.tokens.RejectsNegative stakeToken :=
    fun i hi => ⟨hcalls i hi, htokens i hi⟩
  have hrun : Custody house stakeToken (run s is) :=
    run_invariant_along
      (fun _ _ _ hs hi hok => exec_custody hs hi.2.1 hi.2.2 hi.1 hok) hs (hsafe.and_forall hall)
  refine ⟨hrun.total_eq, hrun.stakes_nonneg, hrun.queued_nonneg, fun ledger => ?_⟩
  rw [replay_eq_gain, hrun.gain_eq]
  omega

def demoHouse : Address := ⟨40⟩
def demoAdmin : Address := ⟨41⟩
def demoStake : Address := ⟨42⟩
def demoReward : Address := ⟨43⟩
def demoTreasury : Address := ⟨44⟩
def demoAlice : Address := ⟨45⟩

def demoLedger : Ledger := fun _ holder => if holder = demoHouse then 0 else 1000

def demoCall (sequence : ℕ) (call : Call) : Invocation demoHouse where
  sequence := sequence
  auths := [demoAdmin, demoAlice]
  tokens := honestReplies demoLedger
  call := call
  outside := by decide

def demoInitialize : Invocation demoHouse :=
  demoCall 1 (.initializeStaking demoAdmin demoStake demoReward 10 demoTreasury)

/-- A stake of 100, of which 60 are queued. -/
def demoUnstake : List (Invocation demoHouse) :=
  [demoCall 2 (.stake demoAlice 100), demoCall 3 (.unstake demoAlice 60)]

theorem stake_custody_demo :
    replay demoLedger (run State.empty (demoInitialize :: demoUnstake)).transfers demoStake
      demoHouse = 0 + 40 + 60 := by
  have hstake : ∀ s, ¬ Overwrites s (demoCall 2 (.stake demoAlice 100)) ∧
      ¬ QueuesNegative s (demoCall 2 (.stake demoAlice 100)) ∧
      ¬ SlashesToItself s (demoCall 2 (.stake demoAlice 100)) := by
    refine fun s => ⟨?_, ?_, ?_⟩ <;> rintro ⟨staker, amount, h⟩
    · cases h.1.1
    · cases h.1.1
    · cases h.1
  have hunstake : ¬ Overwrites (run State.empty [demoInitialize, demoCall 2 (.stake demoAlice 100)])
        (demoCall 3 (.unstake demoAlice 60)) ∧
      ¬ QueuesNegative (run State.empty [demoInitialize, demoCall 2 (.stake demoAlice 100)])
        (demoCall 3 (.unstake demoAlice 60)) ∧
      ¬ SlashesToItself (run State.empty [demoInitialize, demoCall 2 (.stake demoAlice 100)])
        (demoCall 3 (.unstake demoAlice 60)) := by
    refine ⟨?_, ?_, ?_⟩ <;> rintro ⟨staker, amount, h⟩
    · cases h.1.1
      exact h.2 (by decide +kernel)
    · cases h.1.1
      exact absurd h.2 (by decide)
    · cases h.1
  have hcustody := stake_custody demoHouse demoAdmin demoStake demoReward demoTreasury 10
    demoInitialize (run State.empty [demoInitialize]) rfl rfl demoUnstake
    (by simp [demoUnstake, demoCall, Call.MovesStakes])
    (by simp [demoUnstake, demoCall, honestReplies_rejectsNegative])
    ⟨hstake _, hunstake, trivial⟩
  exact hcustody.2.2.2 demoLedger

/-- The second request takes the place of the first, whose 60 stay in the contract for nobody;
    and a negative request raises the stake without a deposit. -/
theorem queued_stake_lost :
    let overwritten := run State.empty
      (demoInitialize :: demoUnstake ++ [demoCall 4 (.unstake demoAlice 40)])
    let unbacked := run State.empty [demoInitialize, demoCall 2 (.unstake demoAlice (-50))]
    (replay demoLedger overwritten.transfers demoStake demoHouse = 100 ∧
      overwritten.totalStaked = some 0 ∧ queued overwritten = 40) ∧
    unbacked.totalStaked = some 50 ∧ entry unbacked.stakes demoAlice = 50 ∧
      queuedOf unbacked demoAlice = -50 ∧
      replay demoLedger unbacked.transfers demoStake demoHouse = 0 := by
  decide +kernel

end SorobanKit.Staking
