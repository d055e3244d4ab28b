import SorobanKit.StakingMoves
import SorobanKit.TimelockContract

set_option autoImplicit false

/-!
# The timelock on the repository's staking contract

`deposit_locked_balance` stakes the locked amount, `withdraw_and_unbond` and `release` call
`unstake` and `withdraw` one after the other. Next to the staking contract of this repository
that pair never returns: without an unbonding period there is no request to withdraw, and with
one the request made in the same call is not ready. `Joint` runs the two contracts together.
-/
namespace SorobanKit.Timelock
open HostBalances HostInteger HostInvocation HostRuns HostTransfers

structure Joint where
  lock : State
  pool : Staking.State

/-- A call on the timelock at `self`, with what token contracts answer the staking contract it
    calls, or a call on the staking contract at `house`. Neither contract signs for others. -/
inductive JointCall (self house : Address) where
  | lock (i : Invocation) (poolTokens : TokenReplies Staking.Purpose) (outside : self ∉ i.auths)
  | pool (j : Staking.Invocation house) (outside : self ∉ j.auths)

section Composition
variable (self house : Address)

/-- An entry point of the staking contract, called by the timelock, which signs by calling. -/
def serveOne (env : Staking.Env) (pool : Staking.State) :
    StakingCall → Result Staking.StakingError Staking.State
  | .stake staker amount => Staking.stake house env staker amount pool
  | .unstake staker amount => Staking.unstake house env staker amount pool
  | .withdraw staker => Staking.withdraw house env staker pool

def serve (env : Staking.Env) (pool : Staking.State) (calls : List StakingCall) :
    Result Staking.StakingError Staking.State :=
  calls.foldlM (serveOne house env) pool

def poolEnv (i : Invocation) (poolTokens : TokenReplies Staking.Purpose) : Staking.Env where
  sequence := i.sequence
  auths := self :: i.auths
  tokens := poolTokens

/-- What a call on the timelock asks of its staking contract, in order. -/
def stakingCalls (i : Invocation) (s : State) : List StakingCall :=
  match i.call with
  | .depositLockedBalance => [.stake self (s.amount.getD 0)]
  | .withdrawAndUnbond => [.unstake self (s.stakedAmount.getD 0), .withdraw self]
  | .release _ =>
    if s.deposited.getD false then [.unstake self (s.stakedAmount.getD 0), .withdraw self] else []
  | _ => []

/-- A staking call returns when it and the ones asked for before it do. -/
def poolReplies (env : Staking.Env) (i : Invocation) (s : State) (pool : Staking.State)
    (contract : Address) (call : StakingCall) : Bool :=
  if contract = house then
    (serve house env pool
      ((stakingCalls self i s).take ((stakingCalls self i s).idxOf call + 1))).toOption.isSome
  else i.staking contract call

/-- The invocation with the replies of the staking contract as it stands. -/
def answered (i : Invocation) (poolTokens : TokenReplies Staking.Purpose) (x : Joint) : Invocation :=
  { i with staking := poolReplies self house (poolEnv self i poolTokens) i x.lock x.pool }

def jointExec : JointCall self house → Joint → Except Unit Joint
  | .lock i poolTokens _, x =>
    match exec self (answered self house i poolTokens x) x.lock,
      serve house (poolEnv self i poolTokens) x.pool (stakingCalls self i x.lock) with
    | .ok lock, .ok pool => .ok ⟨lock, pool⟩
    | _, _ => .error ()
  | .pool j _, x =>
    match Staking.exec j x.pool with
    | .ok pool => .ok { x with pool }
    | .error _ => .error ()

end Composition

section Pair
variable {self house : Address} {env : Staking.Env} {pool pool' : Staking.State}

theorem unstake_requests {amount : ℤ} (h : Staking.unstake house env self amount pool = .ok pool') :
    (pool'.unbondRequests = pool.unbondRequests) ∨
      ∃ readyAt, env.sequence < readyAt ∧
        pool'.unbondRequests.lookup self = some ⟨amount, readyAt⟩ := by
  simp only [Staking.unstake, bind_eq_ok] at h
  obtain ⟨_, _, totalStaked, _, u, haccrue, v, htake, h⟩ := h
  obtain ⟨rpt, _, rfl⟩ := Staking.accrue_ok haccrue
  obtain ⟨_, rfl⟩ := Staking.takeStake_ok htake
  unfold Staking.payOrQueue at h
  dsimp only at h
  split at h
  · simp only [bind_eq_ok] at h
    obtain ⟨stakeToken, _, hpay⟩ := h
    obtain ⟨_, rfl⟩ := recordTransfer_eq_ok.mp hpay
    exact .inl rfl
  · next hperiod =>
    simp only [bind_eq_ok, unwrap_eq_ok, checkedAddU32_eq_some, pure_eq_ok] at h
    obtain ⟨readyAt, ⟨_, rfl⟩, rfl⟩ := h
    have hlater : env.sequence < env.sequence + pool.unbondingPeriod.getD 0 := by
      have hpositive : pool.unbondingPeriod.getD 0 ≠ 0 := hperiod
      omega
    exact .inr ⟨_, hlater, Finmap.lookup_insert _⟩

theorem unstake_withdraw_fails {amount : ℤ} (hnone : pool.unbondRequests.lookup self = none) :
    ∀ t, serve house env pool [.unstake self amount, .withdraw self] ≠ .ok t := by
  intro t h
  simp only [serve, List.foldlM_cons, List.foldlM_nil, serveOne, bind_eq_ok, pure_eq_ok] at h
  obtain ⟨mid, hunstake, last, hwithdraw, _⟩ := h
  simp only [Staking.withdraw, bind_eq_ok, okOr_eq_ok, rejectIf_eq_ok, not_lt] at hwithdraw
  obtain ⟨_, _, req, hreq, _, hready, _⟩ := hwithdraw
  rcases unstake_requests hunstake with hsame | ⟨readyAt, hlater, hqueued⟩
  · rw [hsame, hnone] at hreq
    cases hreq
  · rw [hqueued] at hreq
    obtain rfl := Option.some.inj hreq
    exact absurd hready (not_le.mpr hlater)

theorem stake_requests {amount : ℤ} (h : Staking.stake house env self amount pool = .ok pool') :
    pool'.unbondRequests = pool.unbondRequests ∧
      ∃ token, pool'.transfers = pool.transfers ++ [⟨.stake, token, self, house, amount⟩] := by
  simp only [Staking.stake, bind_eq_ok, pure_eq_ok] at h
  obtain ⟨_, _, totalStaked, _, u, haccrue, token, _, v, hpay, _, _, _, _, rfl⟩ := h
  obtain ⟨rpt, _, rfl⟩ := Staking.accrue_ok haccrue
  obtain ⟨_, rfl⟩ := recordTransfer_eq_ok.mp hpay
  exact ⟨rfl, token, rfl⟩

end Pair

section Lock
variable {self house : Address} {i : Invocation} {poolTokens : TokenReplies Staking.Purpose}
  {s t : State} {x : Joint}

/-- What the setup of a staking timelock fixes. -/
structure Configured (house : Address) (s : State) : Prop where
  contract : s.stakingContract = some house
  started : s.state.isSome

theorem deposit_staked (hs : Configured house s) (h : depositLockedBalance self i.toEnv s = .ok t) :
    ∃ token amount, s.amount = some amount ∧ i.staking house (.stake self amount) ∧
      t = { s with
        deposited := some true, stakedAmount := some amount,
        transfers := s.transfers ++ [⟨.stake, token, self, house, amount⟩] } := by
  simp only [depositLockedBalance, callTransfer, recordTransfer_eq_ok, callStaking, bind_eq_ok,
    okOr_eq_ok, getRequired, trapUnless_eq_ok, pure_eq_ok] at h
  obtain ⟨_, _, contract, hcontract, _, _, token, _, amount, hamount, u, ⟨_, rfl⟩, _, hstaked,
    rfl⟩ := h
  obtain rfl : contract = house := Option.some.inj (hcontract.symm.trans hs.contract)
  exact ⟨token, amount, hamount, hstaked, rfl⟩

theorem withdraw_staked (hs : Configured house s) (h : withdrawAndUnbond self i.toEnv s = .ok t) :
    i.staking house (.withdraw self) := by
  simp only [withdrawAndUnbond, callStaking, bind_eq_ok, okOr_eq_ok, hs.contract, Option.some.injEq,
    trapUnless_eq_ok] at h
  obtain ⟨_, _, contract, rfl, _, _, _, _, _, _, _, hwithdrawn, _⟩ := h
  exact hwithdrawn

theorem unstakeAll_staked (hs : Configured house s) (h : unstakeAll self i.toEnv s = .ok t) :
    (s.deposited.getD false = false ∧ t = s) ∨
      (s.deposited.getD false = true ∧ i.staking house (.withdraw self)) := by
  simp only [unstakeAll, hs.contract] at h
  split at h
  · next hdeposited =>
    simp only [callStaking, bind_eq_ok, trapUnless_eq_ok] at h
    obtain ⟨_, _, _, _, _, hwithdrawn, _⟩ := h
    exact .inr ⟨hdeposited, hwithdrawn⟩
  · next hnot =>
    rw [pure_eq_ok] at h
    exact .inl ⟨by simpa using hnot, h.symm⟩

/-- The record of the stake is left alone. -/
structure SameStake (s t : State) : Prop where
  contract : t.stakingContract = s.stakingContract
  started : s.state.isSome → t.state.isSome
  deposited : t.deposited = s.deposited

theorem SameStake.refl (s : State) : SameStake s s := ⟨rfl, id, rfl⟩

theorem SameStake.trans {u : State} (h₁ : SameStake s t) (h₂ : SameStake t u) : SameStake s u :=
  ⟨h₂.contract.trans h₁.contract, fun h => h₂.started (h₁.started h),
    h₂.deposited.trans h₁.deposited⟩

theorem callTransfer_sameStake {env : Env} {y : Transfer Purpose}
    (h : callTransfer env y s = .ok t) : SameStake s t := by
  obtain ⟨_, rfl⟩ := recordTransfer_eq_ok.mp h
  exact ⟨rfl, id, rfl⟩

theorem releaseTranches_sameStake {env : Env} {token beneficiary : Address} {count : ℕ}
    (h : releaseTranches self env token beneficiary count s = .ok t) : SameStake s t := by
  simp only [releaseTranches, bind_eq_ok] at h
  obtain ⟨sweep, _, _, _, hpay⟩ := h
  refine SameStake.trans ?_ (callTransfer_sameStake hpay)
  split
  · exact ⟨rfl, fun _ => rfl, rfl⟩
  · exact ⟨rfl, id, rfl⟩

theorem releaseAll_sameStake {env : Env} {token beneficiary : Address}
    (h : releaseAll self env token beneficiary s = .ok t) : SameStake s t := by
  have hreleased : SameStake s { s with state := some .released } := ⟨rfl, fun _ => rfl, rfl⟩
  simp only [releaseAll, bind_eq_ok] at h
  obtain ⟨_, _, _, _, _, _, h⟩ := h
  split at h
  · simp only [bind_eq_ok] at h
    obtain ⟨_, _, u, hpay, h⟩ := h
    split at h
    · exact (hreleased.trans (callTransfer_sameStake hpay)).trans (callTransfer_sameStake h)
    · rw [pure_eq_ok] at h
      rw [← h]
      exact hreleased.trans (callTransfer_sameStake hpay)
  · exact hreleased.trans (callTransfer_sameStake h)

theorem registerToken_sameStake {token : Address} (h : registerToken token s = .ok t) :
    SameStake s t := by
  unfold registerToken at h
  dsimp only at h
  split at h
  · rw [pure_eq_ok] at h
    rw [h]
    exact .refl t
  · simp only [bind_eq_ok, pure_eq_ok] at h
    obtain ⟨_, _, rfl⟩ := h
    exact ⟨rfl, id, rfl⟩

theorem deposit_sameStake {env : Env} {token : Address} {amount : ℤ} {releaseLedger : ℕ}
    (h : deposit self env token amount releaseLedger s = .ok t) : SameStake s t := by
  simp only [deposit, bind_eq_ok] at h
  obtain ⟨_, _, _, _, _, _, admin, _, _, _, u, hpay, newBalance, _, v, hregister, h⟩ := h
  have hbefore : SameStake s { u with
      lockedBalance := Function.update u.lockedBalance token (some newBalance) } :=
    (callTransfer_sameStake hpay).trans ⟨rfl, id, rfl⟩
  have hregistered := hbefore.trans (registerToken_sameStake hregister)
  split at h
  · rw [pure_eq_ok] at h
    rw [← h]
    exact hregistered.trans ⟨rfl, id, rfl⟩
  · rw [pure_eq_ok] at h
    rw [← h]
    exact hregistered

/-- What a returning call of a staking timelock did to the stake. -/
inductive StakeMove (self house : Address) (i : Invocation) (s t : State) : Prop where
  | same (hcalls : stakingCalls self i s = []) (h : SameStake s t)
  | staked (token : Address) (amount : ℤ) (hcall : i.call = .depositLockedBalance)
      (hcalls : stakingCalls self i s = [.stake self amount])
      (hreply : i.staking house (.stake self amount))
      (h : t = { s with
        deposited := some true, stakedAmount := some amount,
        transfers := s.transfers ++ [⟨.stake, token, self, house, amount⟩] })
  | unstaked (amount : ℤ) (hcalls : stakingCalls self i s = [.unstake self amount, .withdraw self])
      (hreply : i.staking house (.withdraw self))

theorem exec_stakeMove (hs : Configured house s) (h : exec self i s = .ok t) :
    StakeMove self house i s t := by
  unfold exec at h
  cases hcall : i.call <;> simp only [hcall] at h
  case depositLockedBalance =>
    obtain ⟨token, amount, hamount, hreply, ht⟩ := deposit_staked hs h
    exact .staked token amount hcall (by simp [stakingCalls, hcall, hamount]) hreply ht
  case withdrawAndUnbond =>
    exact .unstaked (s.stakedAmount.getD 0) (by simp only [stakingCalls, hcall]) (withdraw_staked hs h)
  case release token =>
    simp only [release, bind_eq_ok] at h
    obtain ⟨_, _, beneficiary, _, u, hunstake, h⟩ := h
    rcases unstakeAll_staked hs hunstake with ⟨hnot, rfl⟩ | ⟨hdeposited, hreply⟩
    · refine .same (by simp [stakingCalls, hcall, hnot]) ?_
      split at h
      · exact releaseTranches_sameStake h
      · exact releaseAll_sameStake h
    · exact .unstaked (s.stakedAmount.getD 0)
        (by simp only [stakingCalls, hcall, hdeposited, if_true]) hreply
  all_goals refine .same (by simp only [stakingCalls, hcall]) ?_
  case initializeTimelock | initializeWithStaking | initializeWithTranches =>
    simp only [initializeTimelock, initializeWithStaking, initializeWithTranches, bind_eq_ok,
      rejectIf_eq_ok] at h
    obtain ⟨_, hfresh, _⟩ := h
    exact absurd hs.started hfresh
  case deposit => exact deposit_sameStake h
  case releasePartial =>
    simp only [releasePartial, bind_eq_ok] at h
    obtain ⟨_, _, _, _, _, _, _, _, _, _, hpay⟩ := h
    have hpaid := callTransfer_sameStake hpay
    exact ⟨hpaid.contract, hpaid.started, hpaid.deposited⟩
  case claimableAmount =>
    simp only [bind_eq_ok, pure_eq_ok] at h
    obtain ⟨_, _, rfl⟩ := h
    exact .refl _
  case cancel =>
    simp only [cancel, bind_eq_ok] at h
    obtain ⟨_, _, _, _, _, _, _, _, _, _, _, _, hpay⟩ := h
    have hpaid := callTransfer_sameStake hpay
    exact ⟨hpaid.contract, fun _ => hpaid.started rfl, hpaid.deposited⟩
  case rescheduleTranche =>
    simp only [rescheduleTranche, bind_eq_ok, pure_eq_ok] at h
    obtain ⟨_, _, _, _, _, _, _, _, _, _, _, _, _, _, _, _, _, _, _, _, _, _, rfl⟩ := h
    exact ⟨rfl, id, rfl⟩
  case reassignBeneficiary =>
    simp only [reassignBeneficiary, bind_eq_ok, pure_eq_ok] at h
    obtain ⟨_, _, _, _, _, _, _, _, rfl⟩ := h
    exact ⟨rfl, id, rfl⟩

end Lock

section Joint
variable {self house : Address} {i : Invocation} {poolTokens : TokenReplies Staking.Purpose}
  {x y : Joint}

theorem served_of_reply {env : Staking.Env} {s : State} {pool : Staking.State} {call : StakingCall}
    (h : poolReplies self house env i s pool house call)
    (hlast : (stakingCalls self i s).take ((stakingCalls self i s).idxOf call + 1) =
      stakingCalls self i s) :
    ∃ pool', serve house env pool (stakingCalls self i s) = .ok pool' := by
  unfold poolReplies at h
  rw [if_pos rfl, hlast] at h
  cases hserve : serve house env pool (stakingCalls self i s) with
  | ok pool' => exact ⟨pool', rfl⟩
  | error e =>
    rw [hserve] at h
    cases h

theorem lock_served (hs : Configured house x.lock) {t : State}
    (h : exec self (answered self house i poolTokens x) x.lock = .ok t) :
    ∃ pool, serve house (poolEnv self i poolTokens) x.pool (stakingCalls self i x.lock) = .ok pool := by
  have hsame : stakingCalls self (answered self house i poolTokens x) x.lock =
      stakingCalls self i x.lock := rfl
  cases exec_stakeMove hs h with
  | same hcalls _ =>
    rw [hsame] at hcalls
    rw [hcalls]
    exact ⟨x.pool, rfl⟩
  | staked token amount _ hcalls hreply _ =>
    rw [hsame] at hcalls
    apply served_of_reply hreply
    rw [hcalls]
    simp
  | unstaked amount hcalls hreply =>
    rw [hsame] at hcalls
    apply served_of_reply hreply
    rw [hcalls]
    simp

theorem lock_returns_iff (hs : Configured house x.lock) (houtside : self ∉ i.auths) :
    (∃ y, jointExec self house (.lock i poolTokens houtside) x = .ok y) ↔
      ∃ t, exec self (answered self house i poolTokens x) x.lock = .ok t := by
  constructor
  · rintro ⟨y, h⟩
    simp only [jointExec] at h
    split at h
    · next t _ ht _ => exact ⟨t, ht⟩
    · cases h
  · rintro ⟨t, ht⟩
    obtain ⟨pool, hpool⟩ := lock_served hs ht
    exact ⟨⟨t, pool⟩, by simp only [jointExec, ht, hpool]⟩

/-- Both contracts before a call of the joint run. -/
structure Apart (timelock house : Address) (x : Joint) : Prop where
  configured : Configured house x.lock
  unasked : x.pool.unbondRequests.lookup timelock = none

/-- Only a deposit does anything to the stake, and it takes the amount twice: the timelock sends
    it, and `stake` pulls it again. -/
theorem lock_move (hx : Apart self house x) {houtside : self ∉ i.auths}
    (h : jointExec self house (.lock i poolTokens houtside) x = .ok y) :
    (stakingCalls self i x.lock = [] ∧ SameStake x.lock y.lock ∧ y.pool = x.pool) ∨
      (i.call = .depositLockedBalance ∧ ∃ token token' amount,
        y.lock = { x.lock with
          deposited := some true, stakedAmount := some amount,
          transfers := x.lock.transfers ++ [⟨.stake, token, self, house, amount⟩] } ∧
        y.pool.unbondRequests = x.pool.unbondRequests ∧
        y.pool.transfers = x.pool.transfers ++ [⟨.stake, token', self, house, amount⟩]) := by
  simp only [jointExec] at h
  split at h
  · next t pool ht hpool =>
    cases h
    have hsame : stakingCalls self (answered self house i poolTokens x) x.lock =
        stakingCalls self i x.lock := rfl
    cases exec_stakeMove hx.configured ht with
    | same hcalls hstake =>
      rw [← hsame, hcalls] at hpool
      refine .inl ⟨hcalls, hstake, ?_⟩
      exact (pure_eq_ok.mp hpool).symm
    | staked token amount hcall hcalls _ hlock =>
      rw [← hsame, hcalls] at hpool
      simp only [serve, List.foldlM_cons, List.foldlM_nil, serveOne, bind_eq_ok, pure_eq_ok] at hpool
      obtain ⟨pool', hpool, rfl⟩ := hpool
      obtain ⟨hrequests, token', hpulled⟩ := stake_requests hpool
      exact .inr ⟨hcall, token, token', amount, hlock, hrequests, hpulled⟩
    | unstaked amount hcalls _ =>
      rw [← hsame, hcalls] at hpool
      exact (unstake_withdraw_fails hx.unasked _ hpool).elim
  · cases h

/-- What others do on the staking contract to its requests and transfers, as far as the timelock
    is concerned. -/
def Unconcerned (self : Address) (pool pool' : Staking.State) : Prop :=
  pool'.unbondRequests.lookup self = pool.unbondRequests.lookup self ∧
    ∃ new, pool'.transfers = pool.transfers ++ new ∧ ∀ z ∈ new, z.target = self → z.purpose = .slash

theorem unconcerned_quiet {pool pool' : Staking.State}
    (hrequests : pool'.unbondRequests = pool.unbondRequests)
    (htransfers : pool'.transfers = pool.transfers) : Unconcerned self pool pool' :=
  ⟨by rw [hrequests], [], by rw [htransfers, List.append_nil], by simp⟩

theorem unconcerned_paid {pool pool' : Staking.State} {z : Transfer Staking.Purpose}
    (hrequests : pool'.unbondRequests.lookup self = pool.unbondRequests.lookup self)
    (htransfers : pool'.transfers = pool.transfers ++ [z])
    (hz : z.target = self → z.purpose = .slash) : Unconcerned self pool pool' := by
  refine ⟨hrequests, [z], htransfers, fun w hw => ?_⟩
  rw [List.mem_singleton.mp hw]
  exact hz

section Pool
variable {env : Staking.Env} {pool pool' : Staking.State} {staker : Address} {amount : ℤ}

theorem stake_unconcerned (hne : self ≠ house)
    (h : Staking.stake house env staker amount pool = .ok pool') : Unconcerned self pool pool' := by
  obtain ⟨hrequests, token, htransfers⟩ := stake_requests h
  exact unconcerned_paid (by rw [hrequests]) htransfers fun htarget => absurd htarget.symm hne

theorem claimRewards_unconcerned (hself : self ∉ env.auths)
    (h : Staking.claimRewards house env staker pool = .ok pool') : Unconcerned self pool pool' := by
  simp only [Staking.claimRewards, bind_eq_ok, requireAuth_eq_ok] at h
  obtain ⟨_, hauth, totalStaked, _, u, haccrue, h⟩ := h
  obtain ⟨rpt, _, rfl⟩ := Staking.accrue_ok haccrue
  unfold Staking.payReward at h
  dsimp only at h
  split at h
  · simp only [bind_eq_ok, pure_eq_ok] at h
    obtain ⟨token, _, v, hpay, rfl⟩ := h
    obtain ⟨_, rfl⟩ := recordTransfer_eq_ok.mp hpay
    refine unconcerned_paid rfl rfl fun htarget => ?_
    dsimp only at htarget
    rw [htarget] at hauth
    exact absurd hauth hself
  · rw [pure_eq_ok] at h
    subst h
    exact unconcerned_quiet rfl rfl

theorem unstake_unconcerned (hself : self ∉ env.auths)
    (h : Staking.unstake house env staker amount pool = .ok pool') : Unconcerned self pool pool' := by
  simp only [Staking.unstake, bind_eq_ok, requireAuth_eq_ok] at h
  obtain ⟨_, hauth, totalStaked, _, u, haccrue, v, htake, h⟩ := h
  obtain ⟨rpt, _, rfl⟩ := Staking.accrue_ok haccrue
  obtain ⟨_, rfl⟩ := Staking.takeStake_ok htake
  have hne : self ≠ staker := by
    rintro rfl
    exact hself hauth
  unfold Staking.payOrQueue at h
  dsimp only at h
  split at h
  · simp only [bind_eq_ok] at h
    obtain ⟨token, _, hpay⟩ := h
    obtain ⟨_, rfl⟩ := recordTransfer_eq_ok.mp hpay
    exact unconcerned_paid rfl rfl fun htarget => absurd htarget.symm hne
  · simp only [bind_eq_ok, pure_eq_ok] at h
    obtain ⟨readyAt, _, rfl⟩ := h
    exact ⟨Finmap.lookup_insert_of_ne _ hne, [], (List.append_nil _).symm, by simp⟩

theorem withdraw_unconcerned (hself : self ∉ env.auths)
    (h : Staking.withdraw house env staker pool = .ok pool') : Unconcerned self pool pool' := by
  simp only [Staking.withdraw, bind_eq_ok, requireAuth_eq_ok, pure_eq_ok] at h
  obtain ⟨_, hauth, req, _, _, _, token, _, u, hpay, rfl⟩ := h
  obtain ⟨_, rfl⟩ := recordTransfer_eq_ok.mp hpay
  have hne : self ≠ staker := by
    rintro rfl
    exact hself hauth
  exact unconcerned_paid (Finmap.lookup_erase_ne hne) rfl fun htarget => absurd htarget.symm hne

theorem slash_unconcerned (h : Staking.slash house env staker amount pool = .ok pool') :
    Unconcerned self pool pool' := by
  simp only [Staking.slash, bind_eq_ok] at h
  obtain ⟨admin, _, _, _, totalStaked, _, u, haccrue, v, htake, destination, _, token, _, hpay⟩ := h
  obtain ⟨rpt, _, rfl⟩ := Staking.accrue_ok haccrue
  obtain ⟨_, rfl⟩ := Staking.takeStake_ok htake
  obtain ⟨_, rfl⟩ := recordTransfer_eq_ok.mp hpay
  exact unconcerned_paid rfl rfl fun _ => rfl

end Pool

theorem pool_step {j : Staking.Invocation house} (hself : self ∉ j.auths) (hne : self ≠ house)
    {pool pool' : Staking.State} (h : Staking.exec j pool = .ok pool') :
    Unconcerned self pool pool' := by
  unfold Staking.exec at h
  cases hcall : j.call <;> simp only [hcall] at h
  case initializeStaking =>
    simp only [Staking.initializeStaking, bind_eq_ok, pure_eq_ok] at h
    obtain ⟨_, _, _, _, rfl⟩ := h
    exact unconcerned_quiet rfl rfl
  case setRewardRate =>
    simp only [Staking.setRewardRate, bind_eq_ok, pure_eq_ok] at h
    obtain ⟨_, _, _, _, _, _, _, _, totalStaked, _, u, haccrue, rfl⟩ := h
    obtain ⟨rpt, _, rfl⟩ := Staking.accrue_ok haccrue
    exact unconcerned_quiet rfl rfl
  case stake => exact stake_unconcerned hne h
  case claimRewards => exact claimRewards_unconcerned hself h
  case unstake => exact unstake_unconcerned hself h
  case withdraw => exact withdraw_unconcerned hself h
  case slash => exact slash_unconcerned h

theorem apart_step {j : JointCall self house} (hne : self ≠ house) (hx : Apart self house x)
    (h : jointExec self house j x = .ok y) : Apart self house y := by
  cases j with
  | lock i poolTokens houtside =>
    rcases lock_move hx h with ⟨_, hstake, hpool⟩ | ⟨_, token, token', amount, hlock, hrequests, _⟩
    · refine ⟨⟨hstake.contract.trans hx.configured.contract, hstake.started hx.configured.started⟩, ?_⟩
      rw [hpool]
      exact hx.unasked
    · refine ⟨?_, by rw [hrequests]; exact hx.unasked⟩
      rw [hlock]
      exact ⟨hx.configured.contract, hx.configured.started⟩
  | pool j houtside =>
    simp only [jointExec] at h
    split at h
    · next pool hpool =>
      cases h
      exact ⟨hx.configured, (pool_step houtside hne hpool).1.trans hx.unasked⟩
    · cases h

/-- What a returning call of the joint run can not have been, and what it did. -/
structure OneWay (timelock house : Address) (e : Entry Joint (JointCall timelock house)) : Prop where
  kept : e.before.lock.deposited = some true → e.after.lock.deposited = some true
  locked : ∀ i poolTokens outside, e.invocation = .lock i poolTokens outside →
    i.call ≠ .withdrawAndUnbond ∧
      ∀ token, i.call = .release token → e.before.lock.deposited.getD false = false
  twice : ∀ i poolTokens outside, e.invocation = .lock i poolTokens outside →
    i.call = .depositLockedBalance → ∃ token token' amount,
      e.after.lock.transfers = e.before.lock.transfers ++ [⟨.stake, token, timelock, house, amount⟩] ∧
      e.after.pool.transfers = e.before.pool.transfers ++ [⟨.stake, token', timelock, house, amount⟩]
  unpaid : ∃ new, e.after.pool.transfers = e.before.pool.transfers ++ new ∧
    ∀ z ∈ new, z.target = timelock → z.purpose = .slash

theorem oneWay_step {j : JointCall self house} (hne : self ≠ house) (hx : Apart self house x)
    (h : jointExec self house j x = .ok y) : OneWay self house ⟨x, j, y⟩ := by
  cases j with
  | lock i poolTokens houtside =>
    rcases lock_move hx h with
      ⟨hcalls, hstake, hpool⟩ | ⟨hcall, token, token', amount, hlock, _, hpulled⟩
    · refine ⟨fun hdeposited => hstake.deposited.trans hdeposited, ?_, ?_, ?_⟩
      · intro i' tokens' outside' heq
        cases heq
        refine ⟨fun hcall => ?_, fun token hcall => ?_⟩
        · simp [stakingCalls, hcall] at hcalls
        · by_contra hdeposited
          simp [stakingCalls, hcall, hdeposited] at hcalls
      · intro i' tokens' outside' heq hcall
        cases heq
        simp [stakingCalls, hcall] at hcalls
      · dsimp only
        rw [hpool]
        exact ⟨[], (List.append_nil _).symm, by simp⟩
    · refine ⟨fun _ => by dsimp only; rw [hlock], ?_, ?_, ?_⟩
      · intro i' tokens' outside' heq
        cases heq
        refine ⟨fun hother => ?_, fun token hother => ?_⟩
        · rw [hcall] at hother
          cases hother
        · rw [hcall] at hother
          cases hother
      · intro i' tokens' outside' heq _
        exact ⟨token, token', amount, by dsimp only; rw [hlock], hpulled⟩
      · refine ⟨_, hpulled, fun z hz htarget => ?_⟩
        rw [List.mem_singleton.mp hz] at htarget
        exact absurd htarget.symm hne
  | pool j houtside =>
    simp only [jointExec] at h
    split at h
    · next pool hpool =>
      cases h
      refine ⟨id, ?_, ?_, (pool_step houtside hne hpool).2⟩
      · intro i' tokens' outside' heq
        cases heq
      · intro i' tokens' outside' heq
        cases heq
    · cases h

end Joint

/-- Next to the repository's staking contract a deposit is final, in whatever order calls on the
    timelock and on the staking contract follow each other: `withdraw_and_unbond` never returns,
    `release` only while nothing is deposited, a deposit is paid twice and stays recorded, and the
    staking contract never pays the timelock anything back. -/
theorem staked_deposit_final (self house : Address) (hne : self ≠ house) (x : Joint)
    (hcontract : x.lock.stakingContract = some house) (hstarted : x.lock.state.isSome)
    (hunasked : x.pool.unbondRequests.lookup self = none) (js : List (JointCall self house)) :
    ∀ e ∈ history (jointExec self house) x js, OneWay self house e := by
  intro e he
  obtain ⟨hbefore, _, hexec⟩ := history_mem (I := Apart self house) (P := fun _ _ => True)
    (fun _ _ _ hx _ h => apart_step hne hx h) ⟨⟨hcontract, hstarted⟩, hunasked⟩
    (along_true _ _ _) he
  exact oneWay_step hne hbefore hexec

def demoLock : Address := ⟨80⟩
def demoPool : Address := ⟨81⟩
def demoOwner : Address := ⟨82⟩
def demoAsset : Address := ⟨83⟩
def demoPayee : Address := ⟨84⟩

def demoGenerous {π : Type} : TokenReplies π := ⟨fun _ _ => 1000, fun _ _ => true, fun _ => true⟩

def demoOwned (sequence : ℕ) : Context := { sequence := sequence, auths := [demoOwner] }

def demoAct (sequence : ℕ) (call : Call) : Invocation where
  toContext := demoOwned sequence
  tokens := demoGenerous
  staking := fun _ _ => false
  call := call

theorem demoSigned : demoLock ∉ [demoOwner] := by decide

theorem demoHundred_fits : InI128 100 := by decide

theorem demoPool_outside : demoPool ∉ [demoOwner] := by decide

def demoOpening : Staking.Invocation demoPool where
  toEnv := ⟨demoOwned 1, demoGenerous⟩
  call := .initializeStaking demoOwner demoAsset demoAsset 0 demoPayee
  outside := demoPool_outside

/-- A timelock of 100 until ledger 50, and a staking contract that pays unstaked tokens at once. -/
def demoPair : Joint where
  lock := run demoLock State.empty [demoAct 1 (.initializeWithStaking demoOwner demoAsset demoPayee 50
    ⟨100, demoHundred_fits⟩ demoPool demoPayee)]
  pool := Staking.run Staking.State.empty [demoOpening]

def demoStuck : List (JointCall demoLock demoPool) :=
  [.lock (demoAct 2 .depositLockedBalance) demoGenerous demoSigned,
    .lock (demoAct 60 .withdrawAndUnbond) demoGenerous demoSigned,
    .lock (demoAct 60 (.release demoAsset)) demoGenerous demoSigned]

theorem staked_deposit_final_demo :
    (history (jointExec demoLock demoPool) demoPair demoStuck).length = 1 ∧
      (HostRuns.run (jointExec demoLock demoPool) demoPair demoStuck).lock.deposited = some true ∧
      ∀ e ∈ history (jointExec demoLock demoPool) demoPair demoStuck,
        OneWay demoLock demoPool e :=
  ⟨by decide +kernel, by decide +kernel,
    staked_deposit_final demoLock demoPool (by decide) demoPair rfl rfl rfl demoStuck⟩

end SorobanKit.Timelock
