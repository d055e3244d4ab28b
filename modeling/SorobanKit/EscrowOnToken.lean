import SorobanKit.EscrowCustody
import SorobanKit.TokenServer

set_option autoImplicit false

/-!
# The escrow next to the repository's token

What the escrow books is what it made the token transfer, and next to the token of this
repository those transfers are entries of the token's storage. So the amount of an active
single-token escrow is covered by the balance the token keeps for it, however calls on the
escrow and calls on the token alternate.
-/
namespace SorobanKit.Escrow
open HostInteger HostInvocation HostRuns HostServers HostTransfers Deal

def client (d : Deployment) : Client Purpose State Invocation (Failure EscrowError) where
  house := d.contractAddress
  exec := exec d
  log := State.transfers
  context i := i.toContext
  replies i := i.tokens
  answered replies i := { i with tokens := replies }

section Grown
variable {d : Deployment} {env : Env} {s t : State}

theorem callTransfer_grown {x : Transfer Purpose} (h : callTransfer env x s = .ok t) :
    Grown env.tokens s.transfers t.transfers := by
  rw [callTransfer_eq_ok] at h
  obtain ⟨haccepts, rfl⟩ := h
  exact .one haccepts

theorem transferToken_grown {purpose : Purpose} {target : Address} {amount : ℤ}
    (h : transferToken d env purpose target amount s = .ok t) :
    Grown env.tokens s.transfers t.transfers := by
  simp only [transferToken, bind_eq_ok] at h
  obtain ⟨_, _, h⟩ := h
  exact callTransfer_grown h

theorem maybePayFee_grown {fee : ℤ} (h : maybePayFee d env fee s = .ok t) :
    Grown env.tokens s.transfers t.transfers := by
  unfold maybePayFee at h
  split at h
  · rw [pure_eq_ok] at h
    rw [h]
    exact .refl _ _
  · split at h
    · exact transferToken_grown h
    · rw [pure_eq_ok] at h
      rw [h]
      exact .refl _ _

theorem syncDisputableAmount_log {amount : ℤ} (h : syncDisputableAmount s = .ok (amount, t)) :
    t.transfers = s.transfers := by
  simp only [syncDisputableAmount, bind_eq_ok] at h
  obtain ⟨stored, _, h⟩ := h
  split at h
  · rw [pure_eq_ok] at h
    cases h
    rfl
  · simp only [bind_eq_ok, pure_eq_ok, Prod.mk.injEq] at h
    obtain ⟨_, _, _, rfl⟩ := h
    split <;> rfl

theorem release_grown {seller : Address} {net fee : ℤ} {u v : State}
    (hlock : acquireLock s = .ok u) (hnet : transferToken d env .release seller net u = .ok v)
    (hfee : maybePayFee d env fee v = .ok t) : Grown env.tokens s.transfers t.transfers := by
  rw [acquireLock_eq_ok] at hlock
  obtain ⟨_, rfl⟩ := hlock
  exact ((transferToken_grown hnet).trans (maybePayFee_grown hfee) :)

theorem refund_grown {buyer : Address} {amount : ℤ} {u : State}
    (hlock : acquireLock s = .ok u) (hpay : transferToken d env .refund buyer amount u = .ok t) :
    Grown env.tokens s.transfers t.transfers := by
  rw [acquireLock_eq_ok] at hlock
  obtain ⟨_, rfl⟩ := hlock
  exact (transferToken_grown hpay :)

theorem releaseToSeller_grown (h : releaseToSeller d env s = .ok t) :
    Grown env.tokens s.transfers t.transfers := by
  simp only [releaseToSeller, bind_eq_ok] at h
  obtain ⟨_, _, seller, _, ⟨amount, u⟩, hsync, h⟩ := h
  rw [← syncDisputableAmount_log hsync]
  split at h
  · simp only [bind_eq_ok, pure_eq_ok] at h
    obtain ⟨⟨net, fee⟩, _, v, hlock, w, hnet, x, hfee, rfl⟩ := h
    exact (release_grown hlock hnet hfee :)
  · rw [pure_eq_ok] at h
    subst h
    exact .refl _ _

theorem refundToBuyerWithState_grown {state : EscrowState}
    (h : refundToBuyerWithState d env state s = .ok t) : Grown env.tokens s.transfers t.transfers := by
  simp only [refundToBuyerWithState, bind_eq_ok] at h
  obtain ⟨_, _, buyer, _, ⟨amount, u⟩, hsync, h⟩ := h
  rw [← syncDisputableAmount_log hsync]
  split at h
  · simp only [bind_eq_ok, pure_eq_ok] at h
    obtain ⟨v, hlock, w, hpay, rfl⟩ := h
    exact (refund_grown hlock hpay :)
  · rw [pure_eq_ok] at h
    subst h
    exact .refl _ _

theorem releaseShare_grown {seller : Address} {releaseAmount : ℤ}
    (h : releaseShare d env seller releaseAmount s = .ok t) :
    Grown env.tokens s.transfers t.transfers := by
  unfold releaseShare at h
  split at h
  · simp only [bind_eq_ok] at h
    obtain ⟨⟨net, fee⟩, _, u, hnet, hfee⟩ := h
    exact (transferToken_grown hnet).trans (maybePayFee_grown hfee)
  · rw [pure_eq_ok] at h
    rw [h]
    exact .refl _ _

theorem refundShare_grown {buyer : Address} {refund : ℤ} (h : refundShare d env buyer refund s = .ok t) :
    Grown env.tokens s.transfers t.transfers := by
  unfold refundShare at h
  split at h
  · exact transferToken_grown h
  · rw [pure_eq_ok] at h
    rw [h]
    exact .refl _ _

theorem completeIfDone_log (milestones : List Milestone) (s : State) :
    (completeIfDone milestones s).transfers = s.transfers := by
  unfold completeIfDone
  split <;> rfl

theorem fund_grown (h : fund d env s = .ok t) : Grown env.tokens s.transfers t.transfers := by
  simp only [fund, bind_eq_ok, acquireLock_eq_ok, pure_eq_ok] at h
  obtain ⟨_, _, buyer, _, _, _, _, _, token, _, amount, _, _, _, u, ⟨_, rfl⟩, v, hpay, rfl⟩ := h
  exact (callTransfer_grown hpay :)

theorem releasePartial_grown {amount : ℤ} (h : releasePartial d env amount s = .ok t) :
    Grown env.tokens s.transfers t.transfers := by
  simp only [releasePartial, bind_eq_ok, pure_eq_ok] at h
  obtain ⟨_, _, _, _, _, _, _, _, _, _, _, _, _, _, _, _, _, _, ⟨net, fee⟩, _, u, hlock, v, hnet, w, hfee,
    rfl⟩ := h
  exact (release_grown hlock hnet hfee :)

theorem mutualCancel_grown {buyer seller : Address} (h : mutualCancel d env buyer seller s = .ok t) :
    Grown env.tokens s.transfers t.transfers := by
  simp only [mutualCancel, bind_eq_ok] at h
  obtain ⟨_, _, _, _, _, _, _, _, _, _, _, _, _, _, _, _, ⟨amount, u⟩, hsync, h⟩ := h
  rw [← syncDisputableAmount_log hsync]
  split at h
  · simp only [bind_eq_ok, pure_eq_ok] at h
    obtain ⟨v, hlock, w, hpay, rfl⟩ := h
    exact (refund_grown hlock hpay :)
  · rw [pure_eq_ok] at h
    subst h
    exact .refl _ _

theorem approveMilestonePartial_grown {milestoneId : ℕ} {releaseAmount : ℤ}
    (h : approveMilestonePartial d env milestoneId releaseAmount s = .ok t) :
    Grown env.tokens s.transfers t.transfers := by
  simp only [approveMilestonePartial, bind_eq_ok, acquireLock_eq_ok, pure_eq_ok] at h
  obtain ⟨_, _, _, _, _, _, _, _, _, _, _, _, m, _, _, _, _, _, _, _, _, _, _, _, _, _, u, ⟨_, rfl⟩, v,
    hrelease, w, hrefund, rfl⟩ := h
  rw [completeIfDone_log]
  exact ((releaseShare_grown hrelease).trans (refundShare_grown hrefund) :)

theorem releaseMilestone_grown {caller : Address} {milestoneIndex : ℕ}
    (h : releaseMilestone d env caller milestoneIndex s = .ok t) :
    Grown env.tokens s.transfers t.transfers := by
  simp only [releaseMilestone, bind_eq_ok, pure_eq_ok] at h
  obtain ⟨_, _, _, _, _, _, _, _, _, _, _, _, _, _, m, _, _, _, _, _, _, _, _, _, ⟨net, fee⟩, _, u, hlock, v,
    hnet, w, hfee, rfl⟩ := h
  rw [completeIfDone_log]
  exact (release_grown hlock hnet hfee :)

theorem fundMultiToken_grown (h : fundMultiToken d env s = .ok t) :
    Grown env.tokens s.transfers t.transfers := by
  simp only [fundMultiToken, bind_eq_ok] at h
  obtain ⟨_, _, h⟩ := h
  split at h
  · simp only [bind_eq_ok, acquireLock_eq_ok, pure_eq_ok] at h
    obtain ⟨_, _, buyer, _, _, _, _, _, u, ⟨_, rfl⟩, v, hloop, rfl⟩ := h
    exact (Grown.foldlM State.transfers (fun _ _ _ hround => callTransfer_grown hround) hloop :)
  · exact fund_grown h

theorem releaseMultiToken_grown (h : releaseMultiToken d env s = .ok t) :
    Grown env.tokens s.transfers t.transfers := by
  simp only [releaseMultiToken, bind_eq_ok] at h
  obtain ⟨_, _, h⟩ := h
  split at h
  · simp only [bind_eq_ok, acquireLock_eq_ok, pure_eq_ok] at h
    obtain ⟨_, _, seller, _, u, ⟨_, rfl⟩, v, hloop, rfl⟩ := h
    refine (Grown.foldlM State.transfers (fun s x t hround => ?_) hloop :)
    split at hround
    · simp only [bind_eq_ok] at hround
      obtain ⟨⟨net, fee⟩, _, u, hnet, hround⟩ := hround
      refine (callTransfer_grown hnet).trans ?_
      split at hround
      · split at hround
        · exact callTransfer_grown hround
        · rw [pure_eq_ok] at hround
          rw [hround]
          exact .refl _ _
      · rw [pure_eq_ok] at hround
        rw [hround]
        exact .refl _ _
    · rw [pure_eq_ok] at hround
      rw [hround]
      exact .refl _ _
  · exact releaseToSeller_grown h

theorem refundMultiToken_grown (h : refundMultiToken d env s = .ok t) :
    Grown env.tokens s.transfers t.transfers := by
  simp only [refundMultiToken, bind_eq_ok] at h
  obtain ⟨_, _, h⟩ := h
  split at h
  · simp only [bind_eq_ok, acquireLock_eq_ok, pure_eq_ok] at h
    obtain ⟨_, _, buyer, _, u, ⟨_, rfl⟩, v, hloop, rfl⟩ := h
    refine (Grown.foldlM State.transfers (fun s x t hround => ?_) hloop :)
    split at hround
    · exact callTransfer_grown hround
    · rw [pure_eq_ok] at hround
      rw [hround]
      exact .refl _ _
  · exact refundToBuyerWithState_grown h

theorem approveDispute_grown {i : Invocation} {arbiter : Address} {verdict : Bool}
    (hcall : i.call = .approveDispute arbiter verdict) (hnone : settleVerdict d i s = none)
    (h : approveDispute d i.toEnv arbiter verdict s = .ok t) :
    Grown i.tokens s.transfers t.transfers := by
  simp only [approveDispute, bind_eq_ok] at h
  obtain ⟨decision, hdecision, h⟩ := h
  simp only [settleVerdict, hcall, hdecision] at hnone
  cases decision with
  | settle u arbiter' verdict' => cases hnone
  | done u =>
    simp only [Decision.finish, pure_eq_ok] at h
    subst h
    simp only [approveDecision, bind_eq_ok] at hdecision
    obtain ⟨_, _, _, _, _, _, _, _, _, _, hdecision⟩ := hdecision
    split at hdecision
    · simp only [bind_eq_ok, pure_eq_ok, Decision.done.injEq] at hdecision
      obtain ⟨_, _, rfl⟩ := hdecision
      exact .refl _ _
    · split at hdecision
      · simp only [pure_eq_ok, Decision.done.injEq] at hdecision
        subst hdecision
        exact .refl _ _
      · simp only [bind_eq_ok, pure_eq_ok, reduceCtorEq, and_false, exists_false] at hdecision

/-- `resolve_dispute` decides nothing but settlements. -/
theorem resolveDispute_grown {i : Invocation} {caller : Address} {verdict : Bool}
    (hcall : i.call = .resolveDispute caller verdict) (hnone : settleVerdict d i s = none)
    (h : resolveDispute d i.toEnv caller verdict s = .ok t) :
    Grown i.tokens s.transfers t.transfers := by
  simp only [resolveDispute, bind_eq_ok] at h
  obtain ⟨decision, hdecision, _⟩ := h
  simp only [settleVerdict, hcall, hdecision] at hnone
  cases decision with
  | settle u arbiter verdict' => cases hnone
  | done u =>
    simp only [resolveDecision, bind_eq_ok] at hdecision
    obtain ⟨_, _, hdecision⟩ := hdecision
    split at hdecision
    · simp only [resolveMultisig, bind_eq_ok, pure_eq_ok, reduceCtorEq, and_false,
        exists_false] at hdecision
    · simp only [resolveSingle, bind_eq_ok, pure_eq_ok, reduceCtorEq, and_false,
        exists_false] at hdecision

theorem claimDisputeTimeout_grown (h : claimDisputeTimeout d env s = .ok t) :
    Grown env.tokens s.transfers t.transfers := by
  simp only [claimDisputeTimeout, refundToBuyer, bind_eq_ok] at h
  obtain ⟨_, _, _, _, _, _, _, _, _, _, _, _, _, _, h⟩ := h
  exact (refundToBuyerWithState_grown h :)

theorem exec_grown {i : Invocation} (hnone : settleVerdict d i s = none) (h : exec d i s = .ok t) :
    Grown i.tokens s.transfers t.transfers := by
  unfold exec at h
  cases hcall : i.call <;> simp only [hcall] at h
  case fund => exact fund_grown h
  case approveDelivery =>
    simp only [approveDelivery, bind_eq_ok] at h
    obtain ⟨_, _, _, _, _, _, h⟩ := h
    exact releaseToSeller_grown h
  case releasePartial => exact releasePartial_grown h
  case requestRefund =>
    simp only [requestRefund, refundToBuyer, bind_eq_ok] at h
    obtain ⟨_, _, _, _, _, _, _, _, _, _, _, _, _, _, _, _, h⟩ := h
    exact refundToBuyerWithState_grown h
  case requestPartialRefund =>
    simp only [requestPartialRefund, refundToBuyer, bind_eq_ok] at h
    obtain ⟨_, _, _, _, _, _, _, _, _, _, _, _, h⟩ := h
    exact refundToBuyerWithState_grown h
  case claimExpiredRefund =>
    simp only [claimExpiredRefund, bind_eq_ok] at h
    obtain ⟨_, _, _, _, _, _, _, _, _, _, _, _, h⟩ := h
    exact refundToBuyerWithState_grown h
  case mutualCancel => exact mutualCancel_grown h
  case approveMilestonePartial => exact approveMilestonePartial_grown h
  case releaseMilestone => exact releaseMilestone_grown h
  case fundMultiToken => exact fundMultiToken_grown h
  case releaseMultiToken => exact releaseMultiToken_grown h
  case refundMultiToken => exact refundMultiToken_grown h
  case claimDisputeTimeout => exact claimDisputeTimeout_grown h
  case approveDispute => exact approveDispute_grown hcall hnone h
  case resolveDispute => exact resolveDispute_grown hcall hnone h
  -- the other calls make no transfer
  all_goals refine .of_eq ?_
  case initializeWithTokens =>
    simp only [initializeWithTokens, bind_eq_ok, pure_eq_ok] at h
    obtain ⟨_, _, _, _, _, _, _, _, _, _, _, _, _, _, _, _, rfl⟩ := h
    rfl
  all_goals
    simp only [initializeEscrow, initializeWithAbandonmentBuffer, initializeWithArbiters,
      initializeWithMilestones, updateAmount, markDelivered, cancel, extendDeadline, setFeeConfig,
      raiseDispute, pause, unpause, setPaused, bump, bind_eq_ok, pure_eq_ok] at h
  case initializeEscrow =>
    obtain ⟨_, _, _, _, _, _, _, _, _, _, _, _, rfl⟩ := h
    rfl
  case initializeWithAbandonmentBuffer =>
    obtain ⟨_, _, _, _, _, _, _, _, _, _, rfl⟩ := h
    rfl
  case initializeWithArbiters =>
    obtain ⟨_, _, _, _, _, _, _, _, _, _, _, _, rfl⟩ := h
    rfl
  case initializeWithMilestones =>
    obtain ⟨_, _, _, _, _, _, _, _, _, _, _, _, _, _, rfl⟩ := h
    rfl
  case updateAmount | markDelivered | setFeeConfig =>
    obtain ⟨_, _, _, _, _, _, _, _, rfl⟩ := h
    rfl
  case cancel | pause | unpause =>
    obtain ⟨_, _, _, _, _, _, rfl⟩ := h
    rfl
  case extendDeadline =>
    obtain ⟨_, _, _, _, _, _, _, _, _, _, _, _, _, _, _, _, _, _, _, _, rfl⟩ := h
    rfl
  case raiseDispute =>
    obtain ⟨_, _, _, _, _, _, _, _, _, _, _, _, _, _, rfl⟩ := h
    rfl
  case bump =>
    obtain ⟨_, _, rfl⟩ := h
    rfl

theorem client_lawful (d : Deployment) : (client d).Lawful (NoSettle d) :=
  fun _ _ _ _ hnone h => exec_grown hnone h

end Grown

section Gain
variable {self token : Address} {D D' : Deal} {i : Invocation}

/-- The contract gains no less than the books say it holds, also where it pays itself. -/
def Covers (self token : Address) (log : List (Transfer Purpose)) : Prop :=
  held token log ≤ gain token self log

theorem covers_nil : Covers self token [] := le_rfl

theorem Covers.append {xs ys : List (Transfer Purpose)} (hxs : Covers self token xs)
    (hys : Covers self token ys) : Covers self token (xs ++ ys) := by
  unfold Covers at hxs hys ⊢
  rw [held_append, gain_append]
  omega

theorem covers_payment {x : Transfer Purpose} (hpurpose : x.purpose ≠ .deposit)
    (hsource : x.source = self) (hnonneg : 0 ≤ x.amount) : Covers self token [x] := by
  have hgain : -(if x.token = token then ([x].map Transfer.amount).sum else 0) ≤
      gain token self [x] := by
    refine gain_of_outgoing fun y hy => ?_
    rw [List.mem_singleton.mp hy]
    exact ⟨rfl, hsource, hnonneg⟩
  rw [List.map_singleton, List.sum_singleton] at hgain
  refine le_trans (le_of_eq ?_) hgain
  by_cases htoken : x.token = token <;> simp [held, moved, hpurpose, htoken]

theorem covers_deposit (hbuyer : D.buyer ≠ self) (amount : ℤ) :
    Covers self token (D.depositPay self token amount) := by
  unfold Covers
  have hin : gain token self (D.depositPay self token amount) = amount := gain_incoming _ _ hbuyer
  rw [hin]
  simp [held, moved, depositPay]

theorem covers_refund {amount : ℤ} (hamount : 0 ≤ amount) :
    Covers self token (D.refundPay self token amount) := covers_payment (by simp) rfl hamount

theorem feeOn_le (D : Deal) {gross : ℤ} (hgross : 0 ≤ gross) : D.feeOn gross ≤ gross := by
  unfold feeOn
  split
  · next f _ =>
    have hbps : (f.bps : ℤ) ≤ 10000 := by exact_mod_cast f.bps_le
    have hproduct : gross * f.bps ≤ gross * 10000 := Int.mul_le_mul_of_nonneg_left hbps hgross
    have hnonneg : 0 ≤ gross * f.bps := Int.mul_nonneg hgross (by positivity)
    rw [Int.tdiv_eq_ediv_of_nonneg hnonneg]
    omega
  · exact hgross

theorem token_fixed (h : Move self i D D') : D'.token = D.token := by
  cases h <;> rfl

theorem covers_release {gross : ℤ} (hgross : 0 ≤ gross) :
    Covers self token (D.releasePay self token gross) := by
  have hfee := feeOn_nonneg D hgross
  have hnet : Covers self token
      [⟨Purpose.release, token, self, D.seller, gross - D.feeOn gross⟩] :=
    covers_payment (by simp) rfl (sub_nonneg.mpr (feeOn_le D hgross))
  unfold releasePay
  cases D.fee with
  | none => exact hnet
  | some f =>
    dsimp only
    split
    · exact hnet.append (covers_payment (by simp) rfl hfee)
    · exact hnet

theorem covers_ifDue {amount : ℤ} {payments : List (Transfer Purpose)}
    (h : 0 < amount → Covers self token payments) : Covers self token (ifDue amount payments) := by
  unfold ifDue
  split
  · next hpos => exact h hpos
  · exact covers_nil

theorem covers_move (hself : self ∉ i.auths) (hD : Custody D)
    (hlog : Covers self D.token D.log) (h : Move self i D D') : Covers self D'.token D'.log := by
  have hnot : ∀ a ∈ i.auths, a ≠ self := by
    rintro a ha rfl
    exact hself ha
  cases h with
  | idle | configured | recorded | updated | cancelled | delivered | disputed => exact hlog
  | funded hcall hauth hstate => exact hlog.append (covers_deposit (hnot _ hauth) _)
  | fundedBasket B hcall hB | releasedBasket B hcall hB | refundedBasket B hcall hB =>
    rw [hD.basket] at hB
    cases hB
  | releasedPart gross hcall hauth hstate hpos => exact hlog.append (covers_release (le_of_lt hpos))
  | releasedStage S k m gross hcall hstate hS =>
    rw [hD.schedule] at hS
    cases hS
  | released hcall hstate =>
    exact hlog.append (covers_ifDue fun hpos => covers_release (le_of_lt hpos))
  | refunded final hcall =>
    exact hlog.append (covers_ifDue fun hpos => covers_refund (le_of_lt hpos))

end Gain

section Joint
variable {d : Deployment} {dt : Token.Deployment}

/-- Both contracts, and a call of somebody on one of them. -/
abbrev Joint := State × Token.State
abbrev Act := JointCall Invocation Token.Invocation

def jointly (d : Deployment) (dt : Token.Deployment) : Act → Joint → Except Unit Joint :=
  jointExec (client d) (Token.bank dt) (Token.exec dt)

/-- No call settles a dispute, and none on the token seizes what the escrow holds. -/
def Fair (d : Deployment) (dt : Token.Deployment) : Joint → Act → Prop :=
  Token.Fair dt (client d) (NoSettle d)

/-- The books of the escrow next to the token it is in. -/
def Booking (d : Deployment) (dt : Token.Deployment) (y : Joint) : Prop :=
  ∃ D, Represents y.1 D ∧ Custody D ∧ Covers d.contractAddress D.token D.log ∧
    D.token = dt.contractAddress

theorem booking_step {y z : Joint} {j : Act} (hy : Booking d dt y) (hj : Fair d dt y j)
    (hok : jointly d dt j y = .ok z) : Booking d dt z := by
  obtain ⟨s, b⟩ := y
  obtain ⟨D, hrep, hD, hcovers, hsame⟩ := hy
  cases j with
  | bank j =>
    obtain ⟨heq, _⟩ := jointExec_bank hok
    refine ⟨D, ?_, hD, hcovers, hsame⟩
    rw [heq]
    exact hrep
  | client i =>
    obtain ⟨hnone, _, hself⟩ := hj
    obtain ⟨hexec, _⟩ := jointExec_client (client_lawful d) hnone hok
    obtain ⟨D', ht, hmove⟩ := exec_move hrep hnone hexec
    have hothers : d.contractAddress ∉ (answers (client d) (Token.bank dt) i s b).auths := hself
    exact ⟨D', ht, custody_move hD hmove, covers_move hothers hD hcovers hmove,
      (token_fixed hmove).trans hsame⟩

theorem booking_opening {i₀ : Invocation} {s₀ : State} (b : Token.State)
    (hsingle : i₀.call.isSingleToken) (hcreate : exec d i₀ State.empty = .ok s₀)
    (htoken : s₀.tokenContract = some dt.contractAddress) :
    Booking d dt (s₀, b) ∧ s₀.transfers = [] := by
  have hinit : i₀.call.isInitialize := by
    cases hcall : i₀.call <;> rw [hcall] at hsingle <;> first | rfl | cases hsingle
  obtain ⟨D₀, hs₀, hopen⟩ := exec_opening hinit hcreate
  refine ⟨⟨D₀, hs₀, custody_opening hsingle hopen, ?_, ?_⟩, by rw [hs₀.log, hopen.log]⟩
  · rw [hopen.log]
    exact covers_nil
  · exact Option.some.inj (hs₀.token.symm.trans htoken)

/-- In a joint run the amount of an active escrow is covered by its balance. -/
theorem joint_books {before : List Token.Invocation}
    (hbefore : ∀ i ∈ before, Token.OnlyTransfers d.contractAddress i) {i₀ : Invocation}
    {s₀ : State} (hsingle : i₀.call.isSingleToken) (hcreate : exec d i₀ State.empty = .ok s₀)
    (htoken : s₀.tokenContract = some dt.contractAddress) {js : List Act}
    (hfair : Along (jointly d dt) (Fair d dt) (s₀, Token.run dt Token.State.empty before) js) :
    ∃ D, Represents (HostRuns.run (jointly d dt) (s₀, Token.run dt Token.State.empty before) js).1 D ∧
      Custody D ∧ D.token = dt.contractAddress ∧
      (D.state.active → D.amount ≤ Token.balance
        (HostRuns.run (jointly d dt) (s₀, Token.run dt Token.State.empty before) js).2
        d.contractAddress) := by
  obtain ⟨hopening, hlog⟩ :=
    booking_opening (Token.run dt Token.State.empty before) hsingle hcreate htoken
  obtain ⟨D, hrep, hD, hcovers, hsame⟩ :=
    run_invariant_along (I := Booking d dt) (fun _ _ _ hy hj hok => booking_step hy hj hok) hopening
      hfair
  refine ⟨D, hrep, hD, hsame, fun hactive => ?_⟩
  have hholds : Token.balance (Token.run dt Token.State.empty before) d.contractAddress +
      gain dt.contractAddress d.contractAddress
        (HostRuns.run (jointly d dt) (s₀, Token.run dt Token.State.empty before) js).1.transfers ≤
      Token.balance (HostRuns.run (jointly d dt) (s₀, Token.run dt Token.State.empty before) js).2
        d.contractAddress :=
    Token.house_gains (client_lawful d) dt (Token.run_unapproved hbefore) hlog hfair rfl
  have hstart := Token.run_nonneg dt before d.contractAddress
  have hheld := hD.held
  rw [hrep.log] at hholds
  unfold Covers at hcovers
  rw [if_pos hactive, hsame] at hheld
  rw [hsame] at hcovers
  omega

end Joint

/-- While the amount of the escrow is in it, the token's storage has that much for it. -/
def Backed (d : Deployment) (y : Joint) : Prop :=
  ∃ state amount, y.1.state = some state ∧ y.1.amount = some amount ∧ 0 ≤ amount ∧
    (state.active → amount ≤ Token.balance y.2 d.contractAddress)

/-- A single-token escrow in the repository's token, created after any use of the token in which
    the escrow's address signed nothing but transfers of its own: however calls on the escrow and
    direct calls on the token follow each other, its amount is covered by its balance. -/
theorem escrow_backed_by_token (d : Deployment) (dt : Token.Deployment)
    (before : List Token.Invocation)
    (hbefore : ∀ i ∈ before, Token.OnlyTransfers d.contractAddress i) (i₀ : Invocation) (s₀ : State)
    (hsingle : i₀.call.isSingleToken) (hcreate : exec d i₀ State.empty = .ok s₀)
    (htoken : s₀.tokenContract = some dt.contractAddress) (js : List Act)
    (hfair : Along (jointly d dt) (Fair d dt) (s₀, Token.run dt Token.State.empty before) js) :
    Backed d (HostRuns.run (jointly d dt) (s₀, Token.run dt Token.State.empty before) js) := by
  obtain ⟨D, hrep, hD, _, hcovered⟩ := joint_books hbefore hsingle hcreate htoken hfair
  exact ⟨D.state, D.amount, hrep.state, hrep.amount, hD.amount_nonneg, hcovered⟩

def demoServer : Token.Deployment := { Token.demoDeployment with contractAddress := demoToken }

def demoIssued : List Token.Invocation :=
  [Token.demoCreate none,
    { sequence := 2, auths := [Token.demoAdmin], call := .mint demoBuyer 150 }]

theorem demoIssued_signed :
    ∀ i ∈ demoIssued, Token.OnlyTransfers demoDeployment.contractAddress i := by
  intro i hi
  simp only [demoIssued, List.mem_cons, List.not_mem_nil, or_false] at hi
  rcases hi with rfl | rfl <;> exact ⟨by decide, fun hauth => absurd hauth (by decide)⟩

/-- The buyer funds 100 and releases 40, sends 30 on the token in between, and the seller tries
    to take from the escrow on the token itself. -/
def demoJoint : List Act :=
  [.client (demoCall [demoBuyer] .fund),
    .bank { sequence := 6, auths := [demoBuyer], call := .transfer demoBuyer demoSeller 30 },
    .bank { sequence := 6, auths := [demoSeller], call := .transferFrom demoSeller demoSelf demoSeller 9 },
    .client (demoCall [demoBuyer] (.releasePartial 40))]

theorem escrow_backed_by_token_demo :
    let y := HostRuns.run (jointly demoDeployment demoServer)
      (demoSingleState, Token.run demoServer Token.State.empty demoIssued) demoJoint
    Backed demoDeployment y ∧ y.1.amount = some 60 ∧ Token.balance y.2 demoSelf = 60 ∧
      Token.balance y.2 demoSeller = 70 := by
  refine ⟨escrow_backed_by_token demoDeployment demoServer demoIssued demoIssued_signed demoSingle
    demoSingleState rfl rfl rfl demoJoint ?_, by decide +kernel, by decide +kernel, by decide +kernel⟩
  exact ⟨⟨rfl, by decide, by decide⟩, ⟨by decide, by decide, rfl⟩, ⟨by decide, by decide, rfl⟩,
    ⟨rfl, by decide, by decide⟩, trivial⟩

end SorobanKit.Escrow
