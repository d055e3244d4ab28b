import SorobanKit.EscrowCommittee

set_option autoImplicit false

/-!
# What every call leaves in place

Once an escrow is created it has a deadline, its lock is free between calls, and its milestones
keep their amounts. `Kept` says that of two states, for every call and through settlements.
-/
namespace SorobanKit.Escrow
open HostInteger HostInvocation HostTransfers HostRuns Deal

def stageAmounts (s : State) : Option (List ℤ) := s.milestones.map (·.map Milestone.amount)

/-- A later state still has a deadline, a free lock and milestones of the same amounts. -/
structure Kept (s t : State) : Prop where
  deadline : s.deadline.isSome → t.deadline.isSome
  lock : s.locked.getD false = false → t.locked.getD false = false
  stages : stageAmounts t = stageAmounts s

theorem Kept.refl (s : State) : Kept s s := ⟨id, id, rfl⟩

theorem Kept.trans {s t u : State} (h₁ : Kept s t) (h₂ : Kept t u) : Kept s u :=
  ⟨fun h => h₂.deadline (h₁.deadline h), fun h => h₂.lock (h₁.lock h), h₂.stages.trans h₁.stages⟩

/-- A payment leaves all three alone. -/
structure Steady (s t : State) : Prop where
  deadline : t.deadline = s.deadline
  lock : t.locked = s.locked
  milestones : t.milestones = s.milestones

theorem Steady.refl (s : State) : Steady s s := ⟨rfl, rfl, rfl⟩

theorem Steady.trans {s t u : State} (h₁ : Steady s t) (h₂ : Steady t u) : Steady s u :=
  ⟨h₂.deadline.trans h₁.deadline, h₂.lock.trans h₁.lock, h₂.milestones.trans h₁.milestones⟩

theorem Steady.kept {s t : State} (h : Steady s t) : Kept s t := by
  refine ⟨fun hs => by rwa [h.deadline], fun hs => by rwa [h.lock], ?_⟩
  rw [stageAmounts, h.milestones, stageAmounts]

section Payments
variable {d : Deployment} {env : Env} {s t u : State}

theorem callTransfer_steady {x : Transfer Purpose} (h : callTransfer env x s = .ok t) :
    Steady s t := by
  obtain ⟨_, rfl⟩ := callTransfer_eq_ok.mp h
  exact ⟨rfl, rfl, rfl⟩

theorem transferToken_steady {purpose : Purpose} {target : Address} {amount : ℤ}
    (h : transferToken d env purpose target amount s = .ok t) : Steady s t := by
  simp only [transferToken, bind_eq_ok] at h
  obtain ⟨_, _, h⟩ := h
  exact callTransfer_steady h

theorem maybePayFee_steady {fee : ℤ} (h : maybePayFee d env fee s = .ok t) : Steady s t := by
  unfold maybePayFee at h
  split at h
  · rw [pure_eq_ok] at h
    exact h ▸ .refl s
  · split at h
    · exact transferToken_steady h
    · rw [pure_eq_ok] at h
      exact h ▸ .refl s

theorem steady_loop {items : List (Address × ℤ)}
    {body : State → Address × ℤ → Result EscrowError State} (h : items.foldlM body s = .ok t)
    (hbody : ∀ s x t, body s x = .ok t → Steady s t) : Steady s t := by
  induction items generalizing s with
  | nil =>
    rw [List.foldlM_nil, pure_eq_ok] at h
    exact h ▸ .refl s
  | cons x items ih =>
    rw [List.foldlM_cons, bind_eq_ok] at h
    obtain ⟨u, hu, h⟩ := h
    exact (hbody s x u hu).trans (ih h)

/-- Payments between `acquire_lock` and `release_lock`. -/
theorem kept_locked (hlock : acquireLock s = .ok t) (h : Steady t u) : Kept s (releaseLock u) := by
  obtain ⟨_, rfl⟩ := acquireLock_eq_ok.mp hlock
  refine ⟨fun hs => ?_, fun _ => rfl, ?_⟩
  · rw [← h.deadline] at hs
    exact hs
  · rw [stageAmounts, releaseLock, h.milestones, stageAmounts]

theorem syncDisputableAmount_steady {p : ℤ × State} (h : syncDisputableAmount s = .ok p) :
    Steady s p.2 := by
  simp only [syncDisputableAmount, bind_eq_ok] at h
  obtain ⟨stored, _, h⟩ := h
  split at h
  · rw [pure_eq_ok] at h
    rw [← h]
    exact .refl s
  · simp only [bind_eq_ok, pure_eq_ok] at h
    obtain ⟨_, _, rfl⟩ := h
    split <;> exact ⟨rfl, rfl, rfl⟩

theorem markAllMilestonesReleased_kept (s : State) : Kept s (markAllMilestonesReleased s) := by
  refine ⟨id, id, ?_⟩
  simp only [stageAmounts, markAllMilestonesReleased, Option.map_map]
  congr 1
  funext ms
  simp

theorem closing_kept (state : EscrowState) {p : ℤ × State} (h : Steady s p.2) :
    Kept s (markAllMilestonesReleased { p.2 with state := some state, amount := some 0 }) := by
  have hwrite : Steady s { p.2 with state := some state, amount := some 0 } :=
    h.trans ⟨rfl, rfl, rfl⟩
  exact hwrite.kept.trans (markAllMilestonesReleased_kept _)

theorem releaseToSeller_kept (h : releaseToSeller d env s = .ok t) : Kept s t := by
  simp only [releaseToSeller, bind_eq_ok] at h
  obtain ⟨_, _, seller, _, p, hsync, h⟩ := h
  have hclosing := closing_kept .completed (syncDisputableAmount_steady hsync)
  simp only [ite_eq_ok, bind_eq_ok, pure_eq_ok] at h
  rcases h with ⟨_, _, _, u, hlock, v, hnet, w, hfee, rfl⟩ | ⟨_, rfl⟩
  · exact hclosing.trans
      (kept_locked hlock ((transferToken_steady hnet).trans (maybePayFee_steady hfee)))
  · exact hclosing

theorem lockedRefund_kept {target : Address} {amount : ℤ}
    (h : (if 0 < amount then do
        let s ← acquireLock s
        let s ← transferToken d env .refund target amount s
        return releaseLock s
      else return s) = Except.ok t) : Kept s t := by
  simp only [ite_eq_ok, bind_eq_ok, pure_eq_ok] at h
  rcases h with ⟨_, u, hlock, v, hpay, rfl⟩ | ⟨_, rfl⟩
  · exact kept_locked hlock (transferToken_steady hpay)
  · exact .refl s

theorem refundToBuyerWithState_kept {final : EscrowState}
    (h : refundToBuyerWithState d env final s = .ok t) : Kept s t := by
  simp only [refundToBuyerWithState, bind_eq_ok] at h
  obtain ⟨_, _, buyer, _, p, hsync, h⟩ := h
  exact (closing_kept final (syncDisputableAmount_steady hsync)).trans (lockedRefund_kept h)

theorem mutualCancel_kept {buyer seller : Address}
    (h : mutualCancel d env buyer seller s = .ok t) : Kept s t := by
  simp only [mutualCancel, bind_eq_ok] at h
  obtain ⟨_, _, _, _, _, _, _, _, _, _, _, _, _, _, _, _, p, hsync, h⟩ := h
  exact (closing_kept .cancelled (syncDisputableAmount_steady hsync)).trans (lockedRefund_kept h)

theorem releasePartial_kept {amount : ℤ} (h : releasePartial d env amount s = .ok t) :
    Kept s t := by
  simp only [releasePartial, bind_eq_ok, pure_eq_ok] at h
  obtain ⟨_, _, _, _, _, _, _, _, _, _, _, _, _, _, _, _, _, _, _, _, u, hlock, v, hnet, w, hfee, rfl⟩ := h
  have hwrite : ∀ amount, Kept s { s with amount := amount } := fun _ => ⟨id, id, rfl⟩
  exact (hwrite _).trans
    (kept_locked hlock ((transferToken_steady hnet).trans (maybePayFee_steady hfee)))

theorem fund_kept (h : fund d env s = .ok t) : Kept s t := by
  simp only [fund, bind_eq_ok, pure_eq_ok] at h
  obtain ⟨_, _, _, _, _, _, _, _, _, _, _, _, _, _, u, hlock, v, hpay, rfl⟩ := h
  have hwrite : Kept s { s with state := some .funded } := ⟨id, id, rfl⟩
  exact hwrite.trans (kept_locked hlock (callTransfer_steady hpay))

theorem releaseShare_steady {seller : Address} {releaseAmount : ℤ}
    (h : releaseShare d env seller releaseAmount s = .ok t) : Steady s t := by
  unfold releaseShare at h
  simp only [ite_eq_ok, bind_eq_ok, pure_eq_ok] at h
  rcases h with ⟨_, _, _, u, hnet, hfee⟩ | ⟨_, rfl⟩
  · exact (transferToken_steady hnet).trans (maybePayFee_steady hfee)
  · exact .refl s

theorem refundShare_steady {buyer : Address} {refund : ℤ}
    (h : refundShare d env buyer refund s = .ok t) : Steady s t := by
  unfold refundShare at h
  simp only [ite_eq_ok, pure_eq_ok] at h
  rcases h with ⟨_, hpay⟩ | ⟨_, rfl⟩
  · exact transferToken_steady hpay
  · exact .refl s

theorem completeIfDone_kept (milestones : List Milestone) (s : State) :
    Kept s (completeIfDone milestones s) := by
  unfold completeIfDone
  split
  · exact ⟨id, id, rfl⟩
  · exact .refl s

theorem stage_kept {ms : List Milestone} {k : ℕ} {m : Milestone} (hms : s.milestones = some ms)
    (hk : ms[k]? = some m) (amount : Option ℤ) :
    Kept s { s with milestones := some (ms.set k { m with released := true }), amount := amount } := by
  refine ⟨id, id, ?_⟩
  have hsame : (ms.set k { m with released := true }).map Milestone.amount =
      ms.map Milestone.amount := by
    obtain ⟨hlt, rfl⟩ := List.getElem?_eq_some_iff.mp hk
    have hlength : k < (ms.map Milestone.amount).length := by simpa using hlt
    have hold : (ms.map Milestone.amount)[k] = ms[k].amount := List.getElem_map ..
    rw [List.map_set, ← hold, List.set_getElem_self]
  simp only [stageAmounts, hms, Option.map_some, hsame]

theorem approveMilestonePartial_kept {index : ℕ} {amount : ℤ}
    (h : approveMilestonePartial d env index amount s = .ok t) : Kept s t := by
  simp only [approveMilestonePartial, bind_eq_ok, okOr_eq_ok, pure_eq_ok] at h
  obtain ⟨_, _, _, _, _, _, _, _, _, _, ms, hms, m, hk, _, _, _, _, _, _, _, _, _, _, _, _, u, hlock,
    v, hgross, w, hrest, rfl⟩ := h
  have hpaid := kept_locked hlock ((releaseShare_steady hgross).trans (refundShare_steady hrest))
  exact ((stage_kept hms hk _).trans hpaid).trans (completeIfDone_kept _ _)

theorem releaseMilestone_kept {caller : Address} {index : ℕ}
    (h : releaseMilestone d env caller index s = .ok t) : Kept s t := by
  simp only [releaseMilestone, bind_eq_ok, okOr_eq_ok, pure_eq_ok] at h
  obtain ⟨_, _, _, _, _, _, _, _, _, _, _, _, ms, hms, m, hk, _, _, _, _, _, _, _, _, _, _, u, hlock,
    v, hnet, w, hfee, rfl⟩ := h
  have hpaid := kept_locked hlock ((transferToken_steady hnet).trans (maybePayFee_steady hfee))
  exact ((stage_kept hms hk _).trans hpaid).trans (completeIfDone_kept _ _)

theorem fundMultiToken_kept (h : fundMultiToken d env s = .ok t) : Kept s t := by
  simp only [fundMultiToken, bind_eq_ok] at h
  obtain ⟨_, _, h⟩ := h
  split at h
  · simp only [bind_eq_ok, pure_eq_ok] at h
    obtain ⟨_, _, _, _, _, _, _, _, u, hlock, v, hloop, rfl⟩ := h
    have hwrite : Kept s { s with state := some .funded } := ⟨id, id, rfl⟩
    exact hwrite.trans
      (kept_locked hlock (steady_loop hloop fun _ _ _ hbody => callTransfer_steady hbody))
  · exact fund_kept h

theorem releaseMultiToken_kept (h : releaseMultiToken d env s = .ok t) : Kept s t := by
  simp only [releaseMultiToken, bind_eq_ok] at h
  obtain ⟨_, _, h⟩ := h
  split at h
  · simp only [bind_eq_ok, pure_eq_ok] at h
    obtain ⟨_, _, seller, _, u, hlock, v, hloop, rfl⟩ := h
    have hwrite : Kept s { s with state := some .completed, amount := some 0 } := ⟨id, id, rfl⟩
    refine hwrite.trans (kept_locked hlock (steady_loop hloop fun a x b hbody => ?_))
    simp only [ite_eq_ok, bind_eq_ok, pure_eq_ok] at hbody
    rcases hbody with ⟨_, p, _, c, hnet, hbody⟩ | ⟨_, rfl⟩
    · have hfirst := callTransfer_steady hnet
      split at hbody
      · simp only [ite_eq_ok, pure_eq_ok] at hbody
        rcases hbody with ⟨_, hfee⟩ | ⟨_, rfl⟩
        · exact hfirst.trans (callTransfer_steady hfee)
        · exact hfirst
      · rw [pure_eq_ok] at hbody
        exact hbody ▸ hfirst
    · exact .refl a
  · exact releaseToSeller_kept h

theorem refundMultiToken_kept (h : refundMultiToken d env s = .ok t) : Kept s t := by
  simp only [refundMultiToken, bind_eq_ok] at h
  obtain ⟨_, _, h⟩ := h
  split at h
  · simp only [bind_eq_ok, pure_eq_ok] at h
    obtain ⟨_, _, buyer, _, u, hlock, v, hloop, rfl⟩ := h
    have hwrite : Kept s { s with state := some .refunded, amount := some 0 } := ⟨id, id, rfl⟩
    refine hwrite.trans (kept_locked hlock (steady_loop hloop fun a x b hbody => ?_))
    simp only [ite_eq_ok, pure_eq_ok] at hbody
    rcases hbody with ⟨_, hpay⟩ | ⟨_, rfl⟩
    · exact callTransfer_steady hpay
    · exact .refl a
  · exact refundToBuyerWithState_kept h

end Payments

/-- The missing payout functions leave the lock as they found it. -/
structure Settlement.FreesLock (S : Settlement) : Prop where
  transferFunds : ∀ env target amount s t, S.transferFunds env target amount s = .ok t →
    t.locked.getD false = s.locked.getD false
  releaseToSellerAmount : ∀ env amount s t, S.releaseToSellerAmount env amount s = .ok t →
    t.locked.getD false = s.locked.getD false
  refundToBuyerAmount : ∀ env amount s t, S.refundToBuyerAmount env amount s = .ok t →
    t.locked.getD false = s.locked.getD false

theorem KeepsTerms.kept {s t : State} (h : KeepsTerms s t)
    (hlock : t.locked.getD false = s.locked.getD false) : Kept s t := by
  obtain ⟨state, amount, flag, locked, transfers, _, _, rfl⟩ := h
  refine ⟨id, fun hs => hlock.trans hs, ?_⟩
  simp only [stageAmounts, Option.map_map]
  congr 1
  funext ms
  simp

section Disputes
variable {d : Deployment} {env : Env} {s t : State} {D : Deal}

theorem payArbiterFee_kept {arbiter : Address} {disputed : ℤ} {p : ℤ × State}
    (hkeep : d.settlement.KeepsTerms) (hfree : d.settlement.FreesLock)
    (h : payArbiterFee d env arbiter disputed s = .ok p) : Kept s p.2 := by
  unfold payArbiterFee at h
  by_cases hfee : 0 < computeArbiterFee disputed s
  · simp only [hfee, ↓reduceIte, bind_eq_ok, pure_eq_ok] at h
    obtain ⟨u, hpay, rfl⟩ := h
    exact (hkeep.transferFunds _ _ _ _ _ hpay).kept (hfree.transferFunds _ _ _ _ _ hpay)
  · simp only [hfee, ↓reduceIte, bind_eq_ok, pure_eq_ok, exists_eq_left'] at h
    rw [← h]
    exact .refl s

theorem settle_kept {arbiter : Address} {verdict : Bool} (hkeep : d.settlement.KeepsTerms)
    (hfree : d.settlement.FreesLock) (h : settle d env arbiter verdict s = .ok t) : Kept s t := by
  simp only [settle, bind_eq_ok] at h
  obtain ⟨disputed, _, ⟨remaining, u⟩, hfee, h⟩ := h
  have hpaid : Kept s u := payArbiterFee_kept hkeep hfree hfee
  have hwrite : ∀ state, Kept u { u with state := state } := fun _ => ⟨id, id, rfl⟩
  rw [ite_eq_ok] at h
  rcases h with ⟨_, h⟩ | ⟨_, h⟩
  · exact (hpaid.trans (hwrite _)).trans ((hkeep.releaseToSellerAmount _ _ _ _ h).kept
      (hfree.releaseToSellerAmount _ _ _ _ h))
  · exact (hpaid.trans (hwrite _)).trans ((hkeep.refundToBuyerAmount _ _ _ _ h).kept
      (hfree.refundToBuyerAmount _ _ _ _ h))

/-- Before it settles or is over, a dispute call writes the approvals at most. -/
def Decision.Before (s : State) : Decision → Prop
  | .done u => ∃ a, u = { s with disputeApprovals := a }
  | .settle u _ _ => ∃ a, u = { s with disputeApprovals := a }

theorem Represents.withApprovals (hs : Represents s D) (a : Option (List (Address × Bool))) :
    ∃ D', Represents { s with disputeApprovals := a } D' :=
  ⟨{ D with approvals := a.getD [] }, { hs with approvals := rfl }⟩

theorem finish_kept {decision : Decision} (hkeep : d.settlement.KeepsTerms)
    (hfree : d.settlement.FreesLock) (hs : Represents s D) (hbefore : decision.Before s)
    (h : decision.finish d env = .ok t) : (∃ D', Represents t D') ∧ Kept s t := by
  cases decision with
  | done u =>
    obtain ⟨a, rfl⟩ := hbefore
    rw [Decision.finish, pure_eq_ok] at h
    rw [← h]
    exact ⟨hs.withApprovals a, id, id, rfl⟩
  | settle u arbiter verdict =>
    obtain ⟨a, rfl⟩ := hbefore
    obtain ⟨D₁, hD₁⟩ := hs.withApprovals a
    obtain ⟨D', ht, _⟩ := settle_ok hkeep hD₁ h
    have hwrite : Kept s { s with disputeApprovals := a } := ⟨id, id, rfl⟩
    exact ⟨⟨D', ht⟩, hwrite.trans (settle_kept hkeep hfree h)⟩

theorem approveDecision_before {arbiter : Address} {verdict : Bool} {decision : Decision}
    (hs : Represents s D) (h : approveDecision d env arbiter verdict s = .ok decision) :
    decision.Before s := by
  obtain ⟨_, _, _, _, _, rfl | ⟨_, ⟨_, rfl⟩ | ⟨_, _, rfl⟩⟩⟩ := approveDecision_ok hs h
  · exact ⟨s.disputeApprovals, rfl⟩
  · exact ⟨_, rfl⟩
  · exact ⟨_, rfl⟩

theorem resolveDecision_before {caller : Address} {verdict : Bool} {decision : Decision}
    (h : resolveDecision env caller verdict s = .ok decision) : decision.Before s := by
  simp only [resolveDecision, bind_eq_ok] at h
  obtain ⟨_, _, h⟩ := h
  split at h
  · simp only [resolveMultisig, bind_eq_ok, pure_eq_ok] at h
    obtain ⟨_, _, _, _, _, _, _, _, rfl⟩ := h
    exact ⟨_, rfl⟩
  · simp only [resolveSingle, bind_eq_ok, pure_eq_ok] at h
    obtain ⟨_, _, _, _, _, _, rfl⟩ := h
    exact ⟨s.disputeApprovals, rfl⟩

end Disputes

theorem exec_kept {d : Deployment} {i : Invocation} {s t : State} {D : Deal}
    (hkeep : d.settlement.KeepsTerms) (hfree : d.settlement.FreesLock) (hs : Represents s D)
    (h : exec d i s = .ok t) : (∃ D', Represents t D') ∧ Kept s t := by
  have hexec := h
  unfold exec at h
  cases hcall : i.call <;> simp only [hcall] at h
  case approveDispute =>
    simp only [approveDispute, bind_eq_ok] at h
    obtain ⟨decision, hdecision, hfinish⟩ := h
    exact finish_kept hkeep hfree hs (approveDecision_before hs hdecision) hfinish
  case resolveDispute =>
    simp only [resolveDispute, bind_eq_ok] at h
    obtain ⟨decision, hdecision, hfinish⟩ := h
    exact finish_kept hkeep hfree hs (resolveDecision_before hdecision) hfinish
  -- nothing else settles
  all_goals
    have hnone : settleVerdict d i s = none := by simp only [settleVerdict, hcall]
    obtain ⟨D', ht, _⟩ := exec_move hs hnone hexec
    refine ⟨⟨D', ht⟩, ?_⟩
  case updateAmount =>
    simp only [updateAmount, bind_eq_ok, pure_eq_ok] at h
    obtain ⟨_, _, _, _, _, _, _, _, rfl⟩ := h
    exact ⟨id, id, rfl⟩
  case fund => exact fund_kept h
  case markDelivered =>
    simp only [markDelivered, bind_eq_ok, pure_eq_ok] at h
    obtain ⟨_, _, _, _, _, _, _, _, rfl⟩ := h
    exact ⟨id, id, rfl⟩
  case approveDelivery =>
    simp only [approveDelivery, bind_eq_ok] at h
    obtain ⟨_, _, _, _, _, _, h⟩ := h
    exact releaseToSeller_kept h
  case releasePartial => exact releasePartial_kept h
  case requestRefund =>
    simp only [requestRefund, bind_eq_ok] at h
    obtain ⟨_, _, _, _, _, _, _, _, _, _, _, _, _, _, _, _, h⟩ := h
    exact refundToBuyerWithState_kept h
  case requestPartialRefund =>
    simp only [requestPartialRefund, bind_eq_ok] at h
    obtain ⟨_, _, _, _, _, _, _, _, _, _, _, _, h⟩ := h
    exact refundToBuyerWithState_kept h
  case claimExpiredRefund =>
    simp only [claimExpiredRefund, bind_eq_ok] at h
    obtain ⟨_, _, _, _, _, _, _, _, _, _, _, _, h⟩ := h
    exact refundToBuyerWithState_kept h
  case cancel =>
    simp only [cancel, bind_eq_ok, pure_eq_ok] at h
    obtain ⟨_, _, _, _, _, _, rfl⟩ := h
    exact ⟨id, id, rfl⟩
  case mutualCancel => exact mutualCancel_kept h
  case approveMilestonePartial => exact approveMilestonePartial_kept h
  case releaseMilestone => exact releaseMilestone_kept h
  case extendDeadline =>
    simp only [extendDeadline, bind_eq_ok, pure_eq_ok] at h
    obtain ⟨_, _, _, _, _, _, _, _, _, _, _, _, _, _, _, _, _, _, _, _, rfl⟩ := h
    exact ⟨fun _ => rfl, id, rfl⟩
  case setFeeConfig =>
    simp only [setFeeConfig, bind_eq_ok, pure_eq_ok] at h
    obtain ⟨_, _, _, _, _, _, _, _, rfl⟩ := h
    exact ⟨id, id, rfl⟩
  case fundMultiToken => exact fundMultiToken_kept h
  case releaseMultiToken => exact releaseMultiToken_kept h
  case refundMultiToken => exact refundMultiToken_kept h
  case raiseDispute =>
    simp only [raiseDispute, bind_eq_ok, pure_eq_ok] at h
    obtain ⟨_, _, _, _, _, _, _, _, _, _, _, _, _, _, rfl⟩ := h
    exact ⟨id, id, rfl⟩
  case claimDisputeTimeout =>
    simp only [claimDisputeTimeout, bind_eq_ok] at h
    obtain ⟨_, _, _, _, _, _, _, _, _, _, _, _, _, _, h⟩ := h
    have hwrite : Kept s { s with state := some .funded, disputeRaisedAt := none } :=
      ⟨id, id, rfl⟩
    exact hwrite.trans (refundToBuyerWithState_kept h)
  case pause | unpause =>
    simp only [pause, unpause, setPaused, bind_eq_ok, pure_eq_ok] at h
    obtain ⟨_, _, _, _, _, _, rfl⟩ := h
    exact ⟨id, id, rfl⟩
  case bump =>
    simp only [bump, bind_eq_ok, pure_eq_ok] at h
    obtain ⟨_, _, rfl⟩ := h
    exact .refl s
  all_goals
    obtain ⟨_, hguard, _⟩ := bind_eq_ok.mp h
    exact absurd hguard hs.not_alreadyInitialized

end SorobanKit.Escrow
