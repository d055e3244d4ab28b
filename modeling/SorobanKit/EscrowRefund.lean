import SorobanKit.EscrowBasket
import SorobanKit.EscrowCustody
import SorobanKit.EscrowKept

set_option autoImplicit false

/-!
# The refund after the deadline

`request_refund` takes a funded escrow and a delivered one, and hands over to a helper that takes
a funded one only. Where it goes through it pays the remainder of the lead token. What it needs
besides the state is there in every reachable escrow: a deadline, a free lock, and milestones
whose sum fits.
-/
namespace SorobanKit.Escrow
open HostInteger HostInvocation HostTransfers HostRuns Deal

/-- Everything a refund reads besides the deal itself. -/
structure Ready (s : State) : Prop where
  deal : ∃ D, Represents s D
  deadline : s.deadline.isSome
  lock : s.locked.getD false = false
  stages : ∀ amounts, stageAmounts s = some amounts → InI128 amounts.sum

theorem Ready.kept {s t : State} (hs : Ready s) (hdeal : ∃ D, Represents t D) (h : Kept s t) :
    Ready t := by
  refine ⟨hdeal, h.deadline hs.deadline, h.lock hs.lock, ?_⟩
  rw [h.stages]
  exact hs.stages

theorem milestoneTotal_sum {milestones : List Milestone} {start total : ℤ}
    (h : milestones.foldlM (fun total (m : Milestone) => do
      rejectIf (m.amount ≤ 0) EscrowError.invalidAmount
      okOr (checkedAdd total m.amount) .insufficientFunds) start = .ok total)
    (hstart : InI128 start) :
    total = start + (milestones.map Milestone.amount).sum ∧ InI128 total := by
  induction milestones generalizing start with
  | nil =>
    rw [List.foldlM_nil, pure_eq_ok] at h
    simp [← h, hstart]
  | cons m milestones ih =>
    simp only [List.foldlM_cons, bind_eq_ok, rejectIf_eq_ok, okOr_eq_ok, checkedAdd_eq_some] at h
    obtain ⟨_, ⟨_, _, hfits, rfl⟩, h⟩ := h
    obtain ⟨rfl, htotal⟩ := ih h hfits
    refine ⟨?_, htotal⟩
    rw [List.map_cons, List.sum_cons]
    omega

/-- Every variant of `initialize` stores a deadline. -/
theorem exec_ready {d : Deployment} {i : Invocation} {s : State} (hinit : i.call.isInitialize)
    (h : exec d i State.empty = .ok s) : Ready s := by
  obtain ⟨D, hs, _⟩ := exec_opening hinit h
  unfold exec at h
  cases hcall : i.call <;> simp only [hcall] at h
  case initializeEscrow =>
    simp only [initializeEscrow, bind_eq_ok, pure_eq_ok] at h
    obtain ⟨_, _, _, _, _, _, _, _, _, _, _, _, rfl⟩ := h
    exact ⟨⟨D, hs⟩, rfl, rfl, fun _ hnone => by cases hnone⟩
  case initializeWithAbandonmentBuffer =>
    simp only [initializeWithAbandonmentBuffer, bind_eq_ok, pure_eq_ok] at h
    obtain ⟨_, _, _, _, _, _, _, _, _, _, rfl⟩ := h
    exact ⟨⟨D, hs⟩, rfl, rfl, fun _ hnone => by cases hnone⟩
  case initializeWithArbiters =>
    simp only [initializeWithArbiters, bind_eq_ok, pure_eq_ok] at h
    obtain ⟨_, _, _, _, _, _, _, _, _, _, _, _, rfl⟩ := h
    exact ⟨⟨D, hs⟩, rfl, rfl, fun _ hnone => by cases hnone⟩
  case initializeWithMilestones admin buyer seller arbiter token milestones deadline timeout hash =>
    simp only [initializeWithMilestones, bind_eq_ok, pure_eq_ok] at h
    obtain ⟨_, _, _, _, total, htotal, _, _, _, _, _, _, _, _, rfl⟩ := h
    obtain ⟨rfl, hfits⟩ := milestoneTotal_sum htotal (by decide)
    rw [zero_add] at hfits
    refine ⟨⟨D, hs⟩, rfl, rfl, fun amounts hamounts => ?_⟩
    cases hamounts
    exact hfits
  case initializeWithTokens =>
    simp only [initializeWithTokens, bind_eq_ok, pure_eq_ok] at h
    obtain ⟨_, _, _, _, _, _, _, _, _, _, _, _, _, _, _, _, rfl⟩ := h
    exact ⟨⟨D, hs⟩, rfl, rfl, fun _ hnone => by cases hnone⟩
  all_goals
    rw [hcall] at hinit
    exact absurd hinit (by simp [Call.isInitialize])

theorem run_ready {d : Deployment} {s : State} (hkeep : d.settlement.KeepsTerms)
    (hfree : d.settlement.FreesLock) (hs : Ready s) (is : List Invocation) : Ready (run d s is) := by
  refine run_invariant (fun s i t hs h => ?_) hs is
  obtain ⟨D, hD⟩ := hs.deal
  obtain ⟨hdeal, hkept⟩ := exec_kept hkeep hfree hD h
  exact hs.kept hdeal hkept

theorem unreleased_succeeds {ms : List Milestone} {start : ℤ} (hpos : ∀ m ∈ ms, 0 < m.amount)
    (hstart : 0 ≤ start) (hfits : InI128 (start + (ms.map Milestone.amount).sum)) :
    ∃ n, ms.foldlM (fun acc (m : Milestone) =>
      if m.released then (return acc : Result EscrowError ℤ)
      else okOr (checkedAdd acc m.amount) EscrowError.insufficientFunds) start = .ok n := by
  induction ms generalizing start with
  | nil => exact ⟨start, rfl⟩
  | cons m ms ih =>
    obtain ⟨hm, hpos⟩ := List.forall_mem_cons.mp hpos
    have hsum : 0 ≤ (ms.map Milestone.amount).sum := List.sum_nonneg fun a ha => by
      obtain ⟨x, hx, rfl⟩ := List.mem_map.mp ha
      exact (hpos x hx).le
    rw [List.map_cons, List.sum_cons] at hfits
    unfold InI128 at hfits
    rw [List.foldlM_cons]
    simp only [bind_eq_ok, ite_eq_ok, pure_eq_ok, okOr_eq_ok, checkedAdd_eq_some]
    by_cases hreleased : m.released
    · obtain ⟨n, hn⟩ := ih hpos hstart (by unfold InI128; omega)
      exact ⟨n, start, .inl ⟨hreleased, rfl⟩, hn⟩
    · have hnext : 0 ≤ start + m.amount := by omega
      obtain ⟨n, hn⟩ := ih hpos hnext (by unfold InI128; omega)
      exact ⟨n, start + m.amount, .inr ⟨hreleased, by unfold InI128; omega, rfl⟩, hn⟩

/-- What `sync_disputable_amount` returns. -/
def disputable (s : State) : ℤ :=
  match s.milestones with
  | some milestones => unreleased milestones
  | none => s.amount.getD 0

theorem Represents.disputable {s : State} {D : Deal} (hs : Represents s D) :
    disputable s = D.owed := by
  unfold Escrow.disputable owed
  rw [hs.milestones, hs.amount]
  cases D.schedule <;> rfl

theorem syncDisputableAmount_succeeds {s : State} {D : Deal} (hs : Ready s) (hD : Represents s D) :
    ∃ p, syncDisputableAmount s = .ok p := by
  simp only [syncDisputableAmount, bind_eq_ok, hD.getAmount, Except.ok.injEq, exists_eq_left']
  cases hS : D.schedule with
  | none =>
    rw [hD.milestones, hS]
    exact ⟨_, rfl⟩
  | some S =>
    have hms : s.milestones = some S.list := by rw [hD.milestones, hS, Option.map_some]
    have hfits := hs.stages (S.list.map Milestone.amount) (by rw [stageAmounts, hms, Option.map_some])
    rw [← zero_add (S.list.map Milestone.amount).sum] at hfits
    obtain ⟨n, hn⟩ := unreleased_succeeds S.amount_pos le_rfl hfits
    rw [hms]
    simp only [hn, bind_eq_ok, Except.ok.injEq, exists_eq_left', pure_eq_ok]
    exact ⟨_, rfl⟩

/-- The tokens let the contract pay the buyer. -/
def PaysBuyer (d : Deployment) (env : Env) (s : State) : Prop :=
  ∀ x, x.purpose = .refund → x.source = d.contractAddress → s.buyer = some x.target →
    env.tokens.accepts s.transfers x

theorem refundToBuyer_succeeds {d : Deployment} {env : Env} {s : State} {D : Deal} (hs : Ready s)
    (hD : Represents s D) (hstate : D.state = .funded) (hpays : PaysBuyer d env s) :
    ∃ t, refundToBuyer d env s = .ok t := by
  obtain ⟨⟨amount, u⟩, hsync⟩ := syncDisputableAmount_succeeds hs hD
  obtain ⟨rfl, a, rfl⟩ := syncDisputableAmount_ok hD hsync
  have hbuyer : getRequired s.buyer = .ok D.buyer := hD.getBuyer
  have hfunded : requireState .funded s = .ok () := by
    rw [requireState_eq_ok, hD.state, hstate]
  have haccepts : env.tokens.accepts s.transfers
      ⟨.refund, D.token, d.contractAddress, D.buyer, D.owed⟩ = true :=
    hpays _ rfl rfl hD.buyer
  simp only [refundToBuyer, refundToBuyerWithState, bind_eq_ok, hfunded, hbuyer, hsync,
    Except.ok.injEq, exists_eq_left', exists_const, true_and]
  by_cases hdue : 0 < D.owed
  · simp only [hdue, ↓reduceIte, bind_eq_ok, acquireLock_eq_ok, transferToken, unwrap_eq_ok,
      callTransfer_eq_ok, pure_eq_ok]
    exact ⟨_, _, ⟨hs.lock, rfl⟩, _, ⟨D.token, hD.token, haccepts, rfl⟩, rfl⟩
  · simp only [hdue, ↓reduceIte, pure_eq_ok]
    exact ⟨_, rfl⟩

theorem moved_refund_due (D : Deal) (self token t : Address) (amount : ℤ) :
    moved .refund t (ifDue amount (D.refundPay self token amount)) =
      if token = t then max amount 0 else 0 := by
  unfold ifDue
  split
  · next hpos =>
    by_cases h : token = t
    · simp [moved, refundPay, h]
      omega
    · simp [moved, refundPay, h]
  · next hpos =>
    rw [max_eq_right (by omega)]
    simp [moved]

/-- The escrow is refunded, and the buyer was paid everything held for it, token by token. -/
structure RefundedWhole (self : Address) (s t : State) : Prop where
  state : t.state = some .refunded
  paid : ∃ payments, t.transfers = s.transfers ++ payments ∧
    (∀ x ∈ payments, x.purpose = .refund ∧ x.source = self ∧ s.buyer = some x.target) ∧
    ∀ token, moved .refund token payments = held token s.transfers

/-- Everything held for the escrow is what a refund pays: the remainder, in the lead token. -/
def HeldInLead (s : State) : Prop :=
  ∀ token, held token s.transfers =
    if s.tokenContract = some token then max (disputable s) 0 else 0

theorem refundToBuyer_whole_iff {d : Deployment} {env : Env} {s t : State} {D : Deal}
    (hD : Represents s D) (h : refundToBuyer d env s = .ok t) :
    RefundedWhole d.contractAddress s t ↔ HeldInLead s := by
  obtain ⟨_, ht⟩ := refundToBuyerWithState_ok hD h
  have hlog : t.transfers = s.transfers ++
      ifDue D.owed (D.refundPay d.contractAddress D.token D.owed) := by
    rw [ht.log, hD.log]
    rfl
  have hlead : ∀ token, (if s.tokenContract = some token then max (disputable s) 0 else 0) =
      moved .refund token (ifDue D.owed (D.refundPay d.contractAddress D.token D.owed)) := by
    intro token
    rw [moved_refund_due, hD.token, hD.disputable]
    simp only [Option.some.injEq]
  constructor
  · rintro ⟨_, payments, hpayments, _, hpaid⟩ token
    rw [hlog, List.append_cancel_left_eq] at hpayments
    rw [hlead, hpayments, hpaid]
  · intro hheld
    refine ⟨ht.state, _, hlog, fun x hx => ?_, fun token => ?_⟩
    · obtain ⟨_, hx⟩ := mem_ifDue hx
      rw [refundPay, List.mem_singleton] at hx
      rw [hx, hD.buyer]
      exact ⟨rfl, rfl, rfl⟩
    · rw [← hlead, hheld]

/-- After the deadline `request_refund` passes its own checks in a funded escrow. -/
theorem requestRefund_funded {d : Deployment} {env : Env} {s : State} {D : Deal} {deadline : ℕ}
    (hD : Represents s D) (hstate : D.state = .funded) (hdeadline : s.deadline = some deadline)
    (hpast : deadline < env.sequence) (hbuyer : D.buyer ∈ env.auths)
    (hpaused : requireNotPaused d s = .ok ()) :
    requestRefund d env s = refundToBuyer d env s := by
  have hread : getRequired s.deadline = .ok deadline := getRequired_eq_ok.mpr hdeadline
  have hauth : (requireAuth env.toContext D.buyer : Result EscrowError Unit) = .ok () :=
    requireAuth_eq_ok.mpr hbuyer
  rw [requestRefund, hpaused, ok_bind, hD.getBuyer, ok_bind, hauth, ok_bind, hD.getState, ok_bind,
    hread, ok_bind, rejectIf_neg (by omega), ok_bind, rejectIf_neg (by simp [hstate]), ok_bind,
    rejectIf_neg (by simp [hstate]), ok_bind]

theorem requestRefund_ok {d : Deployment} {env : Env} {s t : State}
    (h : requestRefund d env s = .ok t) : refundToBuyer d env s = .ok t := by
  simp only [requestRefund, bind_eq_ok] at h
  obtain ⟨_, _, _, _, _, _, _, _, _, _, _, _, _, _, _, _, h⟩ := h
  exact h

/-- In every state that an escrow reaches, after the deadline and whatever the grace period: the
    buyer's `request_refund` pays back everything held and ends in `Refunded` exactly if the state
    is `Funded` (and not `Delivered`) and everything held is the remainder in the lead token. -/
theorem refund_after_deadline (d : Deployment) (i₀ : Invocation) (s₀ : State)
    (is : List Invocation) (env : Env) (hkeep : d.settlement.KeepsTerms)
    (hfree : d.settlement.FreesLock) (hinit : i₀.call.isInitialize)
    (hcreate : exec d i₀ State.empty = .ok s₀)
    (hpast : ∀ deadline, (run d s₀ is).deadline = some deadline → deadline < env.sequence)
    (hbuyer : ∀ buyer, (run d s₀ is).buyer = some buyer → buyer ∈ env.auths)
    (hpaused : requireNotPaused d (run d s₀ is) = .ok ())
    (hpays : PaysBuyer d env (run d s₀ is)) :
    (∃ t, requestRefund d env (run d s₀ is) = .ok t ∧
        RefundedWhole d.contractAddress (run d s₀ is) t) ↔
      (run d s₀ is).state = some .funded ∧ HeldInLead (run d s₀ is) := by
  have hready := run_ready hkeep hfree (exec_ready hinit hcreate) is
  obtain ⟨D, hD⟩ := hready.deal
  obtain ⟨deadline, hdeadline⟩ := Option.isSome_iff_exists.mp hready.deadline
  have hlate := hpast deadline hdeadline
  constructor
  · rintro ⟨t, hrequest, hwhole⟩
    have hrefund := requestRefund_ok hrequest
    obtain ⟨hstate, _⟩ := refundToBuyerWithState_ok hD hrefund
    exact ⟨by rw [hD.state, hstate], (refundToBuyer_whole_iff hD hrefund).mp hwhole⟩
  · rintro ⟨hfunded, hheld⟩
    have hstate : D.state = .funded := hD.state_iff.mp hfunded
    obtain ⟨t, hrefund⟩ := refundToBuyer_succeeds hready hD hstate hpays
    refine ⟨t, ?_, (refundToBuyer_whole_iff hD hrefund).mpr hheld⟩
    rw [requestRefund_funded hD hstate hdeadline hlate (hbuyer _ hD.buyer) hpaused, hrefund]

/-- In a single-token escrow that never settled a dispute, what is held is always the remainder
    in the one token. -/
theorem heldInLead_single (d : Deployment) (i₀ : Invocation) (s₀ : State) (is : List Invocation)
    (hsingle : i₀.call.isSingleToken) (hcreate : exec d i₀ State.empty = .ok s₀)
    (h : Along (exec d) (NoSettle d) s₀ is) (hfunded : (run d s₀ is).state = some .funded) :
    HeldInLead (run d s₀ is) := by
  have hinit : i₀.call.isInitialize := by
    cases hcall : i₀.call <;> rw [hcall] at hsingle <;> first | rfl | cases hsingle
  obtain ⟨D₀, hs₀, hopen⟩ := exec_opening hinit hcreate
  have hother : ∀ x ∈ D₀.log, x.token = D₀.token := by
    rw [hopen.log]
    simp
  have hstep : ∀ s i D D', Represents s D → (Custody D ∧ ∀ x ∈ D.log, x.token = D.token) → True →
      Move d.contractAddress i D D' → Custody D' ∧ ∀ x ∈ D'.log, x.token = D'.token := by
    rintro s i D D' _ ⟨hcustody, htokens⟩ _ hmove
    obtain ⟨_, _, _, htoken⟩ := hmove.parties
    obtain ⟨new, hlog, _⟩ := hmove.payments
    refine ⟨custody_move hcustody hmove, fun x hx => ?_⟩
    rw [hlog, List.mem_append] at hx
    rw [htoken]
    rcases hx with hx | hx
    · exact htokens x hx
    · exact hmove.token_eq hcustody.basket hlog x hx
  obtain ⟨D, hD, hcustody, htokens⟩ := run_deal (P := fun _ _ => True) hstep hs₀
    ⟨custody_opening hsingle hopen, hother⟩ (h.mono fun _ _ hi => ⟨hi, trivial⟩)
  intro token
  rw [hD.token, hD.disputable, hD.log, hcustody.owed, max_eq_left hcustody.amount_nonneg]
  have hstate : D.state = .funded := hD.state_iff.mp hfunded
  have hheld := hcustody.held
  rw [hstate] at hheld
  simp only [Option.some.injEq]
  split
  · next heq =>
    rw [← heq]
    exact hheld
  · next hne =>
    have hnone : ∀ x ∈ D.log, x.token ≠ token := fun x hx => by
      rw [htokens x hx]
      exact hne
    rw [held, moved, sumOf_eq_zero (by simpa using fun x hx _ => hnone x hx),
      sumOf_eq_zero (by simpa using fun x hx _ => hnone x hx)]
    rfl

theorem demoSettlement_freesLock : demoDeployment.settlement.FreesLock where
  transferFunds env target amount s t h := by
    obtain ⟨_, rfl⟩ := callTransfer_eq_ok.mp h
    rfl
  releaseToSellerAmount env amount s t h := by
    obtain ⟨_, rfl⟩ := callTransfer_eq_ok.mp h
    rfl
  refundToBuyerAmount env amount s t h := by
    obtain ⟨_, rfl⟩ := callTransfer_eq_ok.mp h
    rfl

def demoLate (auths : List Address) : Env :=
  { (demoCall auths .bump).toEnv with sequence := 101 }

/-- 30 of 100 were released before; the buyer gets 70 back. -/
theorem refund_after_deadline_demo :
    ∃ t, requestRefund demoDeployment (demoLate [demoBuyer]) (run demoDeployment demoSingleState
        [demoCall [demoBuyer] .fund, demoCall [demoBuyer] (.releasePartial 30)]) = .ok t ∧
      RefundedWhole demoSelf (run demoDeployment demoSingleState
        [demoCall [demoBuyer] .fund, demoCall [demoBuyer] (.releasePartial 30)]) t := by
  have hheld := heldInLead_single demoDeployment demoSingle demoSingleState
    [demoCall [demoBuyer] .fund, demoCall [demoBuyer] (.releasePartial 30)] rfl rfl
    ⟨rfl, rfl, trivial⟩ rfl
  refine (refund_after_deadline demoDeployment demoSingle demoSingleState
    [demoCall [demoBuyer] .fund, demoCall [demoBuyer] (.releasePartial 30)] (demoLate [demoBuyer])
    demoSettlement_keepsTerms demoSettlement_freesLock rfl rfl ?_ ?_ rfl (fun _ _ _ _ => rfl)).mpr
    ⟨rfl, hheld⟩
  · intro deadline hdeadline
    cases hdeadline
    decide
  · intro buyer hbuyer
    cases hbuyer
    decide

/-- Marked as delivered, the escrow is not refunded after the deadline without any grace period;
    and a funded basket is refunded in its lead token only, so that 50 of the other one stay. -/
theorem delivered_not_refunded :
    ((run demoDeployment demoSingleState
        [demoCall [demoBuyer] .fund, demoCall [demoSeller] .markDelivered]).state =
          some .delivered ∧
      withinGracePeriod (demoLate [demoBuyer]) (run demoDeployment demoSingleState
        [demoCall [demoBuyer] .fund, demoCall [demoSeller] .markDelivered]) = false ∧
      requestRefund demoDeployment (demoLate [demoBuyer]) (run demoDeployment demoSingleState
        [demoCall [demoBuyer] .fund, demoCall [demoSeller] .markDelivered]) =
          .error (.error .invalidState)) ∧
    ((run demoDeployment demoBasketState [demoCall [demoBuyer] .fundMultiToken]).state =
        some .funded ∧
      ∃ t, requestRefund demoDeployment (demoLate [demoBuyer])
          (run demoDeployment demoBasketState [demoCall [demoBuyer] .fundMultiToken]) = .ok t ∧
        t.state = some .refunded ∧ held demoToken t.transfers = 0 ∧
        held demoOther t.transfers = 50) := by
  refine ⟨⟨rfl, rfl, rfl⟩, rfl, _, rfl, rfl, ?_, ?_⟩ <;> decide +kernel

end SorobanKit.Escrow
