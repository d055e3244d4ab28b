import SorobanKit.EscrowDeal

set_option autoImplicit false

/-!
# The storage refines the deal

`Represents s D` reads a deal off the storage. Every call that returns without reaching
`settle` takes a representing storage to one that represents the deal after a `Move`.
-/
namespace SorobanKit.Escrow
open HostInteger HostInvocation HostTransfers HostRuns Deal

section Helpers
variable {d : Deployment} {env : Env} {s t : State}

@[simp] theorem getRequired_eq_ok {α : Type} {x : Option α} {a : α} :
    getRequired x = .ok a ↔ x = some a := by
  simp [getRequired]

@[simp] theorem requireState_eq_ok {expected : EscrowState} {u : Unit} :
    requireState expected s = .ok u ↔ s.state = some expected := by
  simp [requireState]

@[simp] theorem acquireLock_eq_ok :
    acquireLock s = .ok t ↔ s.locked.getD false = false ∧ { s with locked := some true } = t := by
  simp only [acquireLock, bind_eq_ok, rejectIf_eq_ok, Bool.not_eq_true, pure_eq_ok, exists_const]

@[simp] theorem callTransfer_eq_ok {x : Transfer Purpose} :
    callTransfer env x s = .ok t ↔
      env.tokens.accepts s.transfers x ∧ { s with transfers := s.transfers ++ [x] } = t :=
  recordTransfer_eq_ok

theorem transferToken_ok {purpose : Purpose} {token target : Address} {amount : ℤ}
    (h : transferToken d env purpose target amount s = .ok t)
    (htoken : s.tokenContract = some token) :
    t = { s with
      transfers := s.transfers ++ [⟨purpose, token, d.contractAddress, target, amount⟩] } := by
  simp only [transferToken, bind_eq_ok, unwrap_eq_ok, callTransfer_eq_ok] at h
  obtain ⟨token', htoken', _, rfl⟩ := h
  have heq : token' = token := Option.some.inj (htoken'.symm.trans htoken)
  rw [heq]

end Helpers

structure Represents (s : State) (D : Deal) : Prop where
  buyer : s.buyer = some D.buyer
  seller : s.seller = some D.seller
  arbiter : s.arbiter = some D.arbiter
  token : s.tokenContract = some D.token
  amount : s.amount = some D.amount
  state : s.state = some D.state
  milestones : s.milestones = D.schedule.map Schedule.list
  tokenContracts : s.tokenContracts = D.basket.map fun B => B.items.map Prod.fst
  tokenAmounts : s.tokenAmounts = D.basket.map fun B => B.items.map Prod.snd
  arbiters : s.arbiters = D.committee.map Committee.members
  required : s.requiredSignatures = some D.required
  approvals : approvals s = D.approvals
  feeBps : s.feeBps = D.fee.map FeeConfig.bps
  treasury : s.treasury = D.fee.map FeeConfig.treasury
  log : s.transfers = D.log

section Reading
variable {s : State} {D : Deal} (hs : Represents s D)
include hs

theorem Represents.getBuyer : getRequired s.buyer = .ok D.buyer := by
  simp [hs.buyer]

theorem Represents.getSeller : getRequired s.seller = .ok D.seller := by
  simp [hs.seller]

theorem Represents.getArbiter : getRequired s.arbiter = .ok D.arbiter := by
  simp [hs.arbiter]

theorem Represents.getToken : getRequired s.tokenContract = .ok D.token := by
  simp [hs.token]

theorem Represents.getAmount : getRequired s.amount = .ok D.amount := by
  simp [hs.amount]

theorem Represents.getState : getRequired s.state = .ok D.state := by
  simp [hs.state]

theorem Represents.state_iff {state : EscrowState} : s.state = some state ↔ D.state = state := by
  simp [hs.state]

theorem Represents.basket : basket s = D.basket.map Basket.items := by
  unfold Escrow.basket
  rw [hs.tokenContracts, hs.tokenAmounts]
  cases D.basket with
  | none => rfl
  | some B => simp [List.zip_map']

end Reading

theorem feeOn_nonneg (D : Deal) {gross : ℤ} (h : 0 ≤ gross) : 0 ≤ D.feeOn gross := by
  unfold feeOn
  split
  · exact Int.tdiv_nonneg (by positivity) (by omega)
  · rfl

/-- `apply_fee` splits off the configured fee. -/
theorem applyFee_ok {s : State} {D : Deal} {gross net fee : ℤ}
    (h : applyFee gross s = .ok (net, fee)) (hfee : s.feeBps = D.fee.map FeeConfig.bps) :
    net = gross - D.feeOn gross ∧ fee = D.feeOn gross := by
  unfold applyFee at h
  unfold feeOn
  cases hD : D.fee with
  | none =>
    rw [hfee, hD] at h
    simp only [Option.map_none, Option.getD_none, ↓reduceIte, pure_eq_ok, Prod.mk.injEq] at h
    simp [← h.1, ← h.2]
  | some f =>
    rw [hfee, hD] at h
    simp only [Option.map_some, Option.getD_some, ite_eq_ok, bind_eq_ok, unwrap_eq_ok,
      checkedMul_eq_some, checkedSub_eq_some, pure_eq_ok, Prod.mk.injEq] at h
    rcases h with ⟨hzero, rfl, rfl⟩ | ⟨_, _, ⟨_, rfl⟩, _, ⟨_, rfl⟩, rfl, rfl⟩
    · simp [hzero]
    · simp

theorem releasePay_ok {d : Deployment} {env : Env} {s t u : State} {D : Deal} {gross : ℤ}
    (hnet : transferToken d env .release D.seller (gross - D.feeOn gross) s = .ok t)
    (hfee : maybePayFee d env (D.feeOn gross) t = .ok u)
    (htoken : s.tokenContract = some D.token)
    (htreasury : s.treasury = D.fee.map FeeConfig.treasury) :
    u = { s with transfers := s.transfers ++ D.releasePay d.contractAddress D.token gross } := by
  have ht := transferToken_ok hnet htoken
  have htoken' : t.tokenContract = some D.token := by rw [ht]; exact htoken
  have htreasury' : t.treasury = D.fee.map FeeConfig.treasury := by rw [ht]; exact htreasury
  unfold maybePayFee at hfee
  unfold releasePay
  by_cases hpos : D.feeOn gross ≤ 0
  · rw [if_pos hpos, pure_eq_ok] at hfee
    have hnot : ¬ 0 < D.feeOn gross := by omega
    rw [← hfee, ht]
    cases D.fee <;> simp [hnot]
  · rw [if_neg hpos, htreasury'] at hfee
    have hlt : 0 < D.feeOn gross := by omega
    cases hD : D.fee with
    | none =>
      have hzero : D.feeOn gross = 0 := by simp [feeOn, hD]
      omega
    | some f =>
      rw [hD] at hfee
      rw [transferToken_ok hfee htoken', ht]
      simp [hlt]

/-- `apply_fee`, the lock and both transfers: what three entry points share. -/
theorem lockedRelease_ok {d : Deployment} {env : Env} {s s₁ s₂ s₃ : State} {D : Deal}
    {gross : ℤ} {p : ℤ × ℤ} (hsplit : applyFee gross s = .ok p)
    (hlock : { s with locked := some true } = s₁)
    (hnet : transferToken d env .release D.seller p.1 s₁ = .ok s₂)
    (hfee : maybePayFee d env p.2 s₂ = .ok s₃) (htoken : s.tokenContract = some D.token)
    (hbps : s.feeBps = D.fee.map FeeConfig.bps)
    (htreasury : s.treasury = D.fee.map FeeConfig.treasury) :
    releaseLock s₃ = { s with
      locked := some false,
      transfers := s.transfers ++ D.releasePay d.contractAddress D.token gross } := by
  obtain ⟨net, fee⟩ := p
  obtain ⟨rfl, rfl⟩ := applyFee_ok hsplit hbps
  subst hlock
  rw [releasePay_ok hnet hfee htoken htreasury]
  rfl

theorem unreleased_foldlM {ms : List Milestone} {start n : ℤ}
    (h : ms.foldlM (fun acc (m : Milestone) =>
      if m.released then (return acc : Result EscrowError ℤ)
      else okOr (checkedAdd acc m.amount) EscrowError.insufficientFunds) start = .ok n) :
    n = start + unreleased ms := by
  induction ms generalizing start with
  | nil =>
    simp only [List.foldlM_nil, pure_eq_ok] at h
    simp [h]
  | cons m ms ih =>
    simp only [List.foldlM_cons, bind_eq_ok, ite_eq_ok, pure_eq_ok, okOr_eq_ok,
      checkedAdd_eq_some] at h
    obtain ⟨_, ⟨hm, rfl⟩ | ⟨hm, _, rfl⟩, h⟩ := h
    · simp [ih h, hm]
    · simp only [ih h, unreleased_cons, hm, Bool.false_eq_true, ↓reduceIte]
      omega

/-- Callers overwrite the amount right after, so what the call wrote to it is dropped. -/
theorem syncDisputableAmount_ok {s t : State} {D : Deal} {amount : ℤ} (hs : Represents s D)
    (h : syncDisputableAmount s = .ok (amount, t)) :
    amount = D.owed ∧ ∃ a, t = { s with amount := a } := by
  simp only [syncDisputableAmount, bind_eq_ok, hs.getAmount, Except.ok.injEq,
    exists_eq_left'] at h
  unfold owed
  cases hS : D.schedule with
  | none =>
    have hnone : s.milestones = none := by simp [hs.milestones, hS]
    rw [hnone] at h
    simp only [pure_eq_ok, Prod.mk.injEq] at h
    exact ⟨h.1.symm, s.amount, h.2.symm⟩
  | some S =>
    have hsome : s.milestones = some S.list := by simp [hs.milestones, hS]
    rw [hsome] at h
    simp only [bind_eq_ok, pure_eq_ok, Prod.mk.injEq] at h
    obtain ⟨_, hsum, rfl, rfl⟩ := h
    have hvalue := unreleased_foldlM hsum
    refine ⟨by simp only; omega, ?_⟩
    split
    · exact ⟨some _, by rw [hsome]⟩
    · exact ⟨s.amount, rfl⟩

/-- A storage whose money fields were all rewritten by a full payout. -/
theorem Represents.close {s : State} {D : Deal} (hs : Represents s D) (final : EscrowState)
    (payments : List (Transfer Purpose)) (locked : Option Bool) :
    Represents
      { s with
        state := some final, amount := some 0,
        milestones := s.milestones.map (·.map fun m => { m with released := true }),
        locked := locked, transfers := s.transfers ++ payments }
      (D.close final payments) where
  buyer := hs.buyer
  seller := hs.seller
  arbiter := hs.arbiter
  token := hs.token
  amount := rfl
  state := rfl
  milestones := by
    simp only [hs.milestones, Deal.close, Option.map_map]
    rfl
  tokenContracts := hs.tokenContracts
  tokenAmounts := hs.tokenAmounts
  arbiters := hs.arbiters
  required := hs.required
  approvals := hs.approvals
  feeBps := hs.feeBps
  treasury := hs.treasury
  log := by simp only [hs.log, Deal.close]

theorem releaseToSeller_ok {d : Deployment} {env : Env} {s t : State} {D : Deal}
    (hs : Represents s D) (h : releaseToSeller d env s = .ok t) :
    D.state = .delivered ∧ Represents t
      (D.close .completed
        (ifDue D.owed (D.releasePay d.contractAddress D.token D.owed))) := by
  simp only [releaseToSeller, bind_eq_ok, requireState_eq_ok, hs.state_iff, hs.getSeller,
    Except.ok.injEq, exists_eq_left', exists_const] at h
  obtain ⟨hstate, ⟨amount, s₁⟩, hsync, h⟩ := h
  obtain ⟨rfl, a, rfl⟩ := syncDisputableAmount_ok hs hsync
  refine ⟨hstate, ?_⟩
  unfold ifDue
  simp only [ite_eq_ok, bind_eq_ok, acquireLock_eq_ok, pure_eq_ok] at h
  rcases h with ⟨hpos, p, hsplit, s₁, ⟨_, hlock⟩, s₂, hnet, s₃, hfee, rfl⟩ | ⟨hnot, rfl⟩
  · rw [if_pos hpos, lockedRelease_ok hsplit hlock hnet hfee hs.token hs.feeBps hs.treasury]
    exact hs.close .completed _ _
  · rw [if_neg hnot]
    have hclose := hs.close .completed [] s.locked
    simp only [List.append_nil] at hclose
    exact hclose

theorem lockedRefund_ok {d : Deployment} {env : Env} {s t : State} {D : Deal} {amount : ℤ}
    (h : (if 0 < amount then do
        let s ← acquireLock s
        let s ← transferToken d env .refund D.buyer amount s
        return releaseLock s
      else return s) = Except.ok t)
    (htoken : s.tokenContract = some D.token) :
    ∃ locked, t = { s with
      locked := locked,
      transfers := s.transfers ++
        ifDue amount (D.refundPay d.contractAddress D.token amount) } := by
  unfold ifDue
  simp only [ite_eq_ok, bind_eq_ok, acquireLock_eq_ok, pure_eq_ok] at h
  rcases h with ⟨hpos, s₁, ⟨_, rfl⟩, s₂, hpay, rfl⟩ | ⟨hnot, rfl⟩
  · rw [if_pos hpos, transferToken_ok hpay htoken]
    exact ⟨some false, rfl⟩
  · rw [if_neg hnot, List.append_nil]
    exact ⟨s.locked, rfl⟩

theorem refundToBuyerWithState_ok {d : Deployment} {env : Env} {s t : State} {D : Deal}
    {final : EscrowState} (hs : Represents s D)
    (h : refundToBuyerWithState d env final s = .ok t) :
    D.state = .funded ∧ Represents t
      (D.close final (ifDue D.owed (D.refundPay d.contractAddress D.token D.owed))) := by
  simp only [refundToBuyerWithState, bind_eq_ok, requireState_eq_ok, hs.state_iff, hs.getBuyer,
    Except.ok.injEq, exists_eq_left', exists_const] at h
  obtain ⟨hstate, ⟨amount, s₁⟩, hsync, h⟩ := h
  obtain ⟨rfl, a, rfl⟩ := syncDisputableAmount_ok hs hsync
  obtain ⟨locked, rfl⟩ := lockedRefund_ok h hs.token
  exact ⟨hstate, hs.close final _ locked⟩

theorem payLoop_ok {items : List (Address × ℤ)} {s t : State}
    {f : Address × ℤ → List (Transfer Purpose)}
    {body : State → Address × ℤ → Result EscrowError State}
    (h : items.foldlM body s = .ok t)
    (hbody : ∀ x ∈ items, ∀ log u, body { s with transfers := log } x = .ok u →
      u = { s with transfers := log ++ f x }) :
    t = { s with transfers := s.transfers ++ items.flatMap f } := by
  induction items generalizing s with
  | nil =>
    simp only [List.foldlM_nil, pure_eq_ok] at h
    simp [h]
  | cons x items ih =>
    simp only [List.foldlM_cons, bind_eq_ok] at h
    obtain ⟨u, hu, h⟩ := h
    have hfirst := hbody x (by simp) s.transfers u hu
    have hrest := ih h (fun y hy log v hv => by
      rw [hfirst] at hv ⊢
      exact hbody y (by simp [hy]) log v hv)
    rw [hrest, hfirst]
    simp

section Moves
variable {d : Deployment} {i : Invocation} {s t : State} {D : Deal}

/-- The storage still represents a deal, one move later. -/
def Refines (d : Deployment) (i : Invocation) (D : Deal) (t : State) : Prop :=
  ∃ D', Represents t D' ∧ Move d.contractAddress i D D'

theorem Move.refines {D' : Deal} (hmove : Move d.contractAddress i D D') (ht : Represents t D') :
    Refines d i D t :=
  ⟨D', ht, hmove⟩

theorem setFeeConfig_move (hs : Represents s D) {feeBps : ℕ} {treasury : Address}
    (hcall : i.call = .setFeeConfig feeBps treasury)
    (h : setFeeConfig i.toEnv feeBps treasury s = .ok t) : Refines d i D t := by
  simp only [setFeeConfig, bind_eq_ok, rejectIf_eq_ok, pure_eq_ok] at h
  obtain ⟨_, _, _, _, _, _, _, hle, rfl⟩ := h
  exact (Move.configured D ⟨feeBps, treasury, by omega⟩ hcall).refines
    { hs with feeBps := rfl, treasury := rfl }

theorem updateAmount_move (hs : Represents s D) {newAmount : ℤ}
    (hcall : i.call = .updateAmount newAmount)
    (h : updateAmount i.toEnv newAmount s = .ok t) : Refines d i D t := by
  simp only [updateAmount, bind_eq_ok, rejectIf_eq_ok, requireState_eq_ok, hs.state_iff,
    pure_eq_ok] at h
  obtain ⟨_, _, _, _, _, hpos, _, hstate, rfl⟩ := h
  exact (Move.updated D newAmount hcall (by omega) hstate).refines { hs with amount := rfl }

theorem cancel_move (hs : Represents s D) (hcall : i.call = .cancel)
    (h : cancel i.toEnv s = .ok t) : Refines d i D t := by
  simp only [cancel, bind_eq_ok, requireState_eq_ok, hs.state_iff, pure_eq_ok] at h
  obtain ⟨_, _, _, _, _, hstate, rfl⟩ := h
  exact (Move.cancelled D hcall hstate).refines { hs with state := rfl }

theorem fund_move (hs : Represents s D)
    (hcall : i.call = .fund ∨ i.call = .fundMultiToken ∧ D.basket = none)
    (h : fund d i.toEnv s = .ok t) : Refines d i D t := by
  simp only [fund, bind_eq_ok, hs.getBuyer, hs.getToken, hs.getAmount, Except.ok.injEq,
    exists_eq_left', requireAuth_eq_ok, requireState_eq_ok, hs.state_iff, acquireLock_eq_ok,
    callTransfer_eq_ok, pure_eq_ok] at h
  obtain ⟨_, _, _, hauth, _, hstate, _, _, _, ⟨_, rfl⟩, _, ⟨_, rfl⟩, rfl⟩ := h
  refine (Move.funded D hcall hauth hstate).refines { hs with state := rfl, log := ?_ }
  simp only [releaseLock, hs.log, depositPay]

theorem fundMultiToken_move (hs : Represents s D) (hcall : i.call = .fundMultiToken)
    (h : fundMultiToken d i.toEnv s = .ok t) : Refines d i D t := by
  simp only [fundMultiToken, bind_eq_ok, hs.basket] at h
  obtain ⟨_, _, h⟩ := h
  cases hB : D.basket with
  | none =>
    rw [hB] at h
    exact fund_move hs (.inr ⟨hcall, hB⟩) h
  | some B =>
    rw [hB] at h
    simp only [Option.map_some, bind_eq_ok, hs.getBuyer, Except.ok.injEq, exists_eq_left',
      requireAuth_eq_ok, requireState_eq_ok, hs.state_iff, acquireLock_eq_ok, pure_eq_ok] at h
    obtain ⟨_, hstate, _, hauth, _, _, _, ⟨_, rfl⟩, u, hloop, rfl⟩ := h
    have hpay := payLoop_ok (f := fun x => D.depositPay d.contractAddress x.1 x.2) hloop ?_
    · refine (Move.fundedBasket D B hcall hB hauth hstate).refines ?_
      rw [hpay]
      exact { hs with state := rfl, log := by simp only [releaseLock, hs.log] }
    · intro x _ log u hu
      rw [callTransfer_eq_ok] at hu
      exact hu.2.symm

theorem markDelivered_move (hs : Represents s D) (hcall : i.call = .markDelivered)
    (h : markDelivered d i.toEnv s = .ok t) : Refines d i D t := by
  simp only [markDelivered, bind_eq_ok, requireState_eq_ok, hs.state_iff, pure_eq_ok] at h
  obtain ⟨_, _, _, _, _, _, _, hstate, rfl⟩ := h
  exact (Move.delivered D hcall hstate).refines { hs with state := rfl }

theorem raiseDispute_move (hs : Represents s D) {caller : Address}
    (hcall : i.call = .raiseDispute caller)
    (h : raiseDispute d i.toEnv caller s = .ok t) : Refines d i D t := by
  simp only [raiseDispute, bind_eq_ok, hs.getState, Except.ok.injEq, exists_eq_left',
    rejectIf_eq_ok, not_not, pure_eq_ok] at h
  obtain ⟨_, _, _, _, _, _, _, _, _, _, _, hstate, rfl⟩ := h
  exact (Move.disputed D caller hcall hstate).refines { hs with state := rfl }

theorem approveDelivery_move (hs : Represents s D) (hcall : i.call = .approveDelivery)
    (h : approveDelivery d i.toEnv s = .ok t) : Refines d i D t := by
  simp only [approveDelivery, bind_eq_ok, hs.getBuyer, Except.ok.injEq, exists_eq_left',
    requireAuth_eq_ok] at h
  obtain ⟨_, _, _, hauth, h⟩ := h
  obtain ⟨hstate, ht⟩ := releaseToSeller_ok hs h
  exact (Move.released D (.inl ⟨hcall, hauth⟩) hstate).refines ht

theorem releasePartial_move (hs : Represents s D) {amount : ℤ}
    (hcall : i.call = .releasePartial amount)
    (h : releasePartial d i.toEnv amount s = .ok t) : Refines d i D t := by
  simp only [releasePartial, bind_eq_ok, hs.getBuyer, hs.getSeller, hs.getAmount,
    Except.ok.injEq, exists_eq_left', requireAuth_eq_ok, requireState_eq_ok, hs.state_iff,
    rejectIf_eq_ok, unwrap_eq_ok, checkedSub_eq_some, acquireLock_eq_ok, pure_eq_ok] at h
  obtain ⟨_, _, _, hauth, _, hstate, _, hpos, _, hle, _, ⟨_, rfl⟩, p, hsplit, s₁, ⟨_, hlock⟩,
    s₂, hnet, s₃, hfee, rfl⟩ := h
  refine (Move.releasedPart D amount hcall hauth hstate (by omega) (by omega)).refines ?_
  rw [lockedRelease_ok hsplit hlock hnet hfee hs.token hs.feeBps hs.treasury]
  exact { hs with amount := rfl, log := by simp only [hs.log] }

theorem releaseItem_ok {env : Env} {u : State} {x : Address × ℤ}
    (h : (if 0 < x.2 then do
        let (net, fee) ← applyFee x.2 s
        let s ← callTransfer env ⟨.release, x.1, d.contractAddress, D.seller, net⟩ s
        match s.treasury with
        | some treasury =>
          if 0 < fee then callTransfer env ⟨.fee, x.1, d.contractAddress, treasury, fee⟩ s
          else return s
        | none => return s
      else return s) = Except.ok u)
    (hx : 0 < x.2) (hbps : s.feeBps = D.fee.map FeeConfig.bps)
    (htreasury : s.treasury = D.fee.map FeeConfig.treasury) :
    u = { s with transfers := s.transfers ++ D.releasePay d.contractAddress x.1 x.2 } := by
  rw [if_pos hx] at h
  simp only [bind_eq_ok, callTransfer_eq_ok] at h
  obtain ⟨⟨net, fee⟩, hsplit, s₁, ⟨_, hs₁⟩, h⟩ := h
  obtain ⟨rfl, rfl⟩ := applyFee_ok hsplit hbps
  have htreasury' : s₁.treasury = D.fee.map FeeConfig.treasury := by rw [← hs₁]; exact htreasury
  rw [htreasury'] at h
  unfold releasePay
  cases hD : D.fee with
  | none =>
    simp only [hD, Option.map_none, pure_eq_ok] at h
    rw [← h, ← hs₁]
  | some f =>
    simp only [hD, Option.map_some, ite_eq_ok, callTransfer_eq_ok, pure_eq_ok] at h
    rcases h with ⟨hpos, _, rfl⟩ | ⟨hnot, rfl⟩
    · rw [← hs₁]
      simp [hpos]
    · rw [← hs₁]
      simp [hnot]

theorem releaseMultiToken_move (hs : Represents s D) (hcall : i.call = .releaseMultiToken)
    (h : releaseMultiToken d i.toEnv s = .ok t) : Refines d i D t := by
  simp only [releaseMultiToken, bind_eq_ok, hs.basket] at h
  obtain ⟨_, _, h⟩ := h
  cases hB : D.basket with
  | none =>
    rw [hB] at h
    obtain ⟨hstate, ht⟩ := releaseToSeller_ok hs h
    exact (Move.released D (.inr ⟨hcall, hB⟩) hstate).refines ht
  | some B =>
    rw [hB] at h
    simp only [Option.map_some, bind_eq_ok, hs.getSeller, Except.ok.injEq, exists_eq_left',
      requireState_eq_ok, hs.state_iff, acquireLock_eq_ok, pure_eq_ok] at h
    obtain ⟨_, hstate, _, ⟨_, rfl⟩, u, hloop, rfl⟩ := h
    have hpay := payLoop_ok (f := fun x => D.releasePay d.contractAddress x.1 x.2) hloop
      (fun x hx log u hu => releaseItem_ok hu (B.amount_pos x hx) hs.feeBps hs.treasury)
    refine (Move.releasedBasket D B hcall hB hstate).refines ?_
    rw [hpay]
    exact { hs with state := rfl, amount := rfl, log := by simp only [releaseLock, hs.log] }

theorem refund_move (hs : Represents s D) {final : EscrowState}
    (h : refundToBuyerWithState d i.toEnv final s = .ok t)
    (hcall : D.state = .funded → D.RefundBy i final) : Refines d i D t := by
  obtain ⟨hstate, ht⟩ := refundToBuyerWithState_ok hs h
  exact (Move.refunded D final (hcall hstate)).refines ht

theorem refundMultiToken_move (hs : Represents s D) (hcall : i.call = .refundMultiToken)
    (h : refundMultiToken d i.toEnv s = .ok t) : Refines d i D t := by
  simp only [refundMultiToken, bind_eq_ok, hs.basket] at h
  obtain ⟨_, _, h⟩ := h
  cases hB : D.basket with
  | none =>
    rw [hB] at h
    refine refund_move hs h fun hstate => ?_
    unfold RefundBy
    rw [hcall]
    exact ⟨hB, hstate, rfl⟩
  | some B =>
    rw [hB] at h
    simp only [Option.map_some, bind_eq_ok, hs.getBuyer, Except.ok.injEq, exists_eq_left',
      requireState_eq_ok, hs.state_iff, acquireLock_eq_ok, pure_eq_ok] at h
    obtain ⟨_, hstate, _, ⟨_, rfl⟩, u, hloop, rfl⟩ := h
    have hpay := payLoop_ok (f := fun x => D.refundPay d.contractAddress x.1 x.2) hloop ?_
    · refine (Move.refundedBasket D B hcall hB hstate).refines ?_
      rw [hpay]
      exact { hs with state := rfl, amount := rfl, log := by simp only [releaseLock, hs.log] }
    · intro x hx log u hu
      rw [if_pos (B.amount_pos x hx), callTransfer_eq_ok] at hu
      exact hu.2.symm

theorem requestRefund_move (hs : Represents s D) (hcall : i.call = .requestRefund)
    (h : requestRefund d i.toEnv s = .ok t) : Refines d i D t := by
  simp only [requestRefund, refundToBuyer, bind_eq_ok, hs.getBuyer, Except.ok.injEq,
    exists_eq_left', requireAuth_eq_ok] at h
  obtain ⟨_, _, _, hauth, _, _, _, _, _, _, _, _, _, _, h⟩ := h
  refine refund_move hs h fun hstate => ?_
  unfold RefundBy
  rw [hcall]
  exact ⟨hauth, hstate, rfl⟩

theorem requestPartialRefund_move (hs : Represents s D) (hcall : i.call = .requestPartialRefund)
    (h : requestPartialRefund d i.toEnv s = .ok t) : Refines d i D t := by
  simp only [requestPartialRefund, refundToBuyer, bind_eq_ok, hs.getBuyer, Except.ok.injEq,
    exists_eq_left', requireAuth_eq_ok] at h
  obtain ⟨_, _, _, hauth, _, _, _, _, _, _, h⟩ := h
  refine refund_move hs h fun hstate => ?_
  unfold RefundBy
  rw [hcall]
  exact ⟨hauth, hstate, rfl⟩

theorem claimExpiredRefund_move (hs : Represents s D) (hcall : i.call = .claimExpiredRefund)
    (h : claimExpiredRefund d i.toEnv s = .ok t) : Refines d i D t := by
  simp only [claimExpiredRefund, bind_eq_ok, hs.getBuyer, Except.ok.injEq, exists_eq_left',
    requireAuth_eq_ok] at h
  obtain ⟨_, _, _, hauth, _, _, _, _, _, _, h⟩ := h
  refine refund_move hs h fun hstate => ?_
  unfold RefundBy
  rw [hcall]
  exact ⟨hauth, hstate, rfl⟩

/-- The helper sees `Funded`; the deal before the call was in dispute. -/
theorem claimDisputeTimeout_move (hs : Represents s D) (hcall : i.call = .claimDisputeTimeout)
    (h : claimDisputeTimeout d i.toEnv s = .ok t) : Refines d i D t := by
  simp only [claimDisputeTimeout, refundToBuyer, bind_eq_ok, hs.getBuyer, Except.ok.injEq,
    exists_eq_left', requireAuth_eq_ok, requireState_eq_ok, hs.state_iff] at h
  obtain ⟨_, _, _, hauth, _, hstate, _, _, _, _, _, _, h⟩ := h
  have hfunded : Represents { s with state := some .funded, disputeRaisedAt := none }
      { D with state := .funded } := { hs with state := rfl }
  obtain ⟨_, ht⟩ := refundToBuyerWithState_ok hfunded h
  refine (Move.refunded D .refunded ?_).refines ht
  unfold RefundBy
  rw [hcall]
  exact ⟨hauth, hstate, rfl⟩

theorem mutualCancel_move (hs : Represents s D) {buyer seller : Address}
    (hcall : i.call = .mutualCancel buyer seller)
    (h : mutualCancel d i.toEnv buyer seller s = .ok t) : Refines d i D t := by
  simp only [mutualCancel, bind_eq_ok, hs.getBuyer, hs.getSeller, hs.getState, Except.ok.injEq,
    exists_eq_left', rejectIf_eq_ok, not_not, requireAuth_eq_ok] at h
  obtain ⟨_, _, _, hparties, _, hauth, _, _, _, hstate, ⟨amount, s₁⟩, hsync, h⟩ := h
  have hbuyer : buyer = D.buyer := by
    by_contra hne
    exact hparties (.inl hne)
  subst hbuyer
  obtain ⟨rfl, a, rfl⟩ := syncDisputableAmount_ok hs hsync
  obtain ⟨locked, rfl⟩ := lockedRefund_ok h hs.token
  refine (Move.refunded D .cancelled ?_).refines (hs.close .cancelled _ locked)
  unfold RefundBy
  rw [hcall]
  exact ⟨hauth, hstate, rfl⟩

theorem Represents.releaseStage {S : Schedule} {k : ℕ} {m : Milestone} (hs : Represents s D)
    (hstate : D.state = .funded) (hm : m ∈ S.list) (payments : List (Transfer Purpose)) :
    Represents
      (completeIfDone (S.list.set k { m with released := true }) { s with
        milestones := some (S.list.set k { m with released := true }),
        amount := some (D.amount - m.amount), locked := some false,
        transfers := s.transfers ++ payments })
      { D with
        schedule := some (S.release k m hm), amount := D.amount - m.amount,
        state := if (S.release k m hm).list.all (·.released) then .completed else .funded,
        log := D.log ++ payments } := by
  unfold completeIfDone
  split
  · rename_i hall
    exact { hs with
      amount := rfl, milestones := rfl, log := by simp only [hs.log],
      state := by simp only [Schedule.release, hall, ↓reduceIte] }
  · rename_i hall
    exact { hs with
      amount := rfl, milestones := rfl, log := by simp only [hs.log],
      state := by simp only [Schedule.release, hall, Bool.false_eq_true, ↓reduceIte, hs.state,
        hstate] }

theorem releaseMilestone_move (hs : Represents s D) {caller : Address} {index : ℕ}
    (hcall : i.call = .releaseMilestone caller index)
    (h : releaseMilestone d i.toEnv caller index s = .ok t) : Refines d i D t := by
  simp only [releaseMilestone, bind_eq_ok, hs.getBuyer, hs.getArbiter, hs.getSeller,
    hs.getAmount, Except.ok.injEq, exists_eq_left', requireAuth_eq_ok, requireState_eq_ok,
    hs.state_iff, rejectIf_eq_ok, okOr_eq_ok, unwrap_eq_ok, checkedSub_eq_some,
    acquireLock_eq_ok, pure_eq_ok] at h
  obtain ⟨_, _, _, hcaller, _, hauth, _, hstate, ms, hms, m, hk, _, hopen, _, ⟨_, rfl⟩,
    p, hsplit, s₁, ⟨_, hlock⟩, s₂, hnet, s₃, hfee, rfl⟩ := h
  rw [hs.milestones, Option.map_eq_some_iff] at hms
  obtain ⟨S, hS, rfl⟩ := hms
  have hm : m ∈ S.list := List.mem_of_getElem? hk
  have hstage : D.StageBy i index m m.amount := by
    unfold StageBy
    rw [hcall]
    exact ⟨hauth, by tauto, rfl, rfl⟩
  have hopen' : m.released = false := by simpa using hopen
  refine (Move.releasedStage D S index m m.amount hstage hstate hS hm hk hopen').refines ?_
  have hpay : D.stagePay d.contractAddress m.amount m.amount =
      D.releasePay d.contractAddress D.token m.amount := by
    simp [stagePay, ifDue, S.amount_pos m hm]
  rw [lockedRelease_ok hsplit hlock hnet hfee hs.token hs.feeBps hs.treasury, hpay]
  exact hs.releaseStage hstate hm _

theorem releaseShare_ok {env : Env} {amount : ℤ}
    (h : releaseShare d env D.seller amount s = .ok t) (htoken : s.tokenContract = some D.token)
    (hbps : s.feeBps = D.fee.map FeeConfig.bps)
    (htreasury : s.treasury = D.fee.map FeeConfig.treasury) :
    t = { s with
      transfers := s.transfers ++
        ifDue amount (D.releasePay d.contractAddress D.token amount) } := by
  unfold ifDue
  simp only [releaseShare, ite_eq_ok, bind_eq_ok, pure_eq_ok] at h
  rcases h with ⟨hpos, ⟨net, fee⟩, hsplit, s₁, hnet, hfee⟩ | ⟨hnot, rfl⟩
  · obtain ⟨rfl, rfl⟩ := applyFee_ok hsplit hbps
    rw [if_pos hpos, releasePay_ok hnet hfee htoken htreasury]
  · rw [if_neg hnot, List.append_nil]

theorem refundShare_ok {env : Env} {refund : ℤ}
    (h : refundShare d env D.buyer refund s = .ok t) (htoken : s.tokenContract = some D.token) :
    t = { s with
      transfers := s.transfers ++
        ifDue refund (D.refundPay d.contractAddress D.token refund) } := by
  unfold ifDue
  simp only [refundShare, ite_eq_ok, pure_eq_ok] at h
  rcases h with ⟨hpos, hpay⟩ | ⟨hnot, rfl⟩
  · rw [if_pos hpos, transferToken_ok hpay htoken]
    rfl
  · rw [if_neg hnot, List.append_nil]

theorem approveMilestonePartial_move (hs : Represents s D) {index : ℕ} {amount : ℤ}
    (hcall : i.call = .approveMilestonePartial index amount)
    (h : approveMilestonePartial d i.toEnv index amount s = .ok t) : Refines d i D t := by
  simp only [approveMilestonePartial, bind_eq_ok, hs.getBuyer, hs.getSeller, hs.getAmount,
    Except.ok.injEq, exists_eq_left', requireAuth_eq_ok, requireState_eq_ok, hs.state_iff,
    rejectIf_eq_ok, okOr_eq_ok, unwrap_eq_ok, checkedSub_eq_some, acquireLock_eq_ok,
    pure_eq_ok] at h
  obtain ⟨_, _, _, hauth, _, hstate, _, hnonneg, ms, hms, m, hk, _, hopen, _, hle, _, ⟨_, rfl⟩,
    _, ⟨_, rfl⟩, s₁, ⟨_, hlock⟩, s₂, hgross, s₃, hrest, rfl⟩ := h
  rw [hs.milestones, Option.map_eq_some_iff] at hms
  obtain ⟨S, hS, rfl⟩ := hms
  have hm : m ∈ S.list := List.mem_of_getElem? hk
  have hstage : D.StageBy i index m amount := by
    unfold StageBy
    rw [hcall]
    exact ⟨hauth, rfl, rfl, by omega, by omega⟩
  have hopen' : m.released = false := by simpa using hopen
  refine (Move.releasedStage D S index m amount hstage hstate hS hm hk hopen').refines ?_
  subst hlock
  have hs₂ := releaseShare_ok hgross hs.token hs.feeBps hs.treasury
  subst hs₂
  have hs₃ := refundShare_ok hrest hs.token
  subst hs₃
  have hfinal := hs.releaseStage (k := index) hstate hm
    (D.stagePay d.contractAddress m.amount amount)
  simp only [stagePay, ← List.append_assoc] at hfinal ⊢
  exact hfinal

theorem recordedDirection_eq_none {arbiter : Address} {recorded : List (Address × Bool)} :
    recordedDirection arbiter recorded = none ↔ ∀ a ∈ recorded, a.1 ≠ arbiter := by
  simp [recordedDirection]

/-- The three ways through `approve_dispute`: the same approval again, one more approval,
    and the approval that completes a unanimous quorum. -/
theorem approveDecision_ok {env : Env} {arbiter : Address} {verdict : Bool} {decision : Decision}
    (hs : Represents s D) (h : approveDecision d env arbiter verdict s = .ok decision) :
    D.state = .disputed ∧ ∃ C, D.committee = some C ∧ arbiter ∈ C.members ∧ arbiter ∈ env.auths ∧
      (decision = .done s ∨
        (∀ a ∈ D.approvals, a.1 ≠ arbiter) ∧
          (D.approvals.length + 1 < C.required ∧
              decision = .done
                { s with disputeApprovals := some (D.approvals ++ [(arbiter, verdict)]) } ∨
            C.required ≤ D.approvals.length + 1 ∧ (∀ a ∈ D.approvals, a.2 = verdict) ∧
              decision = .settle { s with disputeApprovals := none } arbiter verdict)) := by
  simp only [approveDecision, bind_eq_ok, requireState_eq_ok, hs.state_iff, okOr_eq_ok,
    rejectIf_eq_ok, not_not, requireAuth_eq_ok, hs.approvals] at h
  obtain ⟨_, _, _, hstate, members, hmembers, _, hmem, _, hauth, h⟩ := h
  rw [hs.arbiters, Option.map_eq_some_iff] at hmembers
  obtain ⟨C, hC, rfl⟩ := hmembers
  refine ⟨hstate, C, hC, hmem, hauth, ?_⟩
  have hreq : s.requiredSignatures.getD 1 = C.required := by simp [hs.required, Deal.required, hC]
  rw [hreq] at h
  cases hrec : recordedDirection arbiter D.approvals with
  | some direction =>
    simp only [hrec, bind_eq_ok, pure_eq_ok] at h
    obtain ⟨_, _, rfl⟩ := h
    exact .inl rfl
  | none =>
    simp only [hrec, List.length_append, List.length_cons, List.length_nil, ite_eq_ok, bind_eq_ok,
      rejectIf_eq_ok, pure_eq_ok] at h
    refine .inr ⟨recordedDirection_eq_none.mp hrec, ?_⟩
    rcases h with ⟨hlt, rfl⟩ | ⟨hge, _, hagree, rfl⟩
    · exact .inl ⟨by omega, rfl⟩
    · -- everyone agrees with the first entry, so also the one just added
      have hall : ∀ a ∈ D.approvals ++ [(arbiter, verdict)],
          a.2 = (((D.approvals ++ [(arbiter, verdict)]).head?.map Prod.snd).getD false) := by
        intro a ha
        by_contra hne
        exact hagree ⟨a, ha, hne⟩
      have hlast := hall (arbiter, verdict) (by simp)
      rw [← hlast] at hall ⊢
      exact .inr ⟨by omega, fun a ha => hall a (by simp [ha]), rfl⟩

theorem approveDispute_move (hs : Represents s D) {arbiter : Address} {verdict : Bool}
    (hcall : i.call = .approveDispute arbiter verdict) (hnone : settleVerdict d i s = none)
    (h : approveDispute d i.toEnv arbiter verdict s = .ok t) : Refines d i D t := by
  simp only [approveDispute, bind_eq_ok] at h
  obtain ⟨decision, hdecision, h⟩ := h
  obtain ⟨hstate, C, hC, hmem, hauth, hcases⟩ := approveDecision_ok hs hdecision
  rcases hcases with rfl | ⟨hnew, ⟨hlt, rfl⟩ | ⟨_, _, rfl⟩⟩
  · simp only [Decision.finish, pure_eq_ok] at h
    rw [← h]
    exact (Move.idle D (by rw [hcall]; rfl)).refines hs
  · simp only [Decision.finish, pure_eq_ok] at h
    rw [← h]
    exact (Move.recorded D C arbiter verdict hcall hstate hC hmem hauth hnew hlt).refines
      { hs with approvals := rfl }
  · simp [settleVerdict, hcall, hdecision] at hnone

/-- `resolve_dispute` settles whenever it returns; a committee must have its quorum recorded. -/
theorem resolveDecision_ok {env : Env} {caller : Address} {verdict : Bool} {decision : Decision}
    (hs : Represents s D) (h : resolveDecision env caller verdict s = .ok decision) :
    (∃ u arbiter, decision = .settle u arbiter verdict) ∧
      ∀ C, D.committee = some C → C.required ≤ D.approvals.length := by
  simp only [resolveDecision, bind_eq_ok, hs.arbiters] at h
  obtain ⟨_, _, h⟩ := h
  cases hC : D.committee with
  | none =>
    simp only [hC, Option.map_none, resolveSingle, bind_eq_ok, pure_eq_ok] at h
    obtain ⟨_, _, _, _, _, _, rfl⟩ := h
    exact ⟨⟨_, _, rfl⟩, by simp⟩
  | some C =>
    simp only [hC, Option.map_some, resolveMultisig, bind_eq_ok, rejectIf_eq_ok, hs.approvals,
      hs.required, Deal.required, Option.getD_some, pure_eq_ok] at h
    obtain ⟨_, _, _, _, _, hlen, _, _, rfl⟩ := h
    refine ⟨⟨_, _, rfl⟩, ?_⟩
    rintro C' ⟨⟩
    omega

theorem resolveDispute_settles (hs : Represents s D) {caller : Address} {verdict : Bool}
    (hcall : i.call = .resolveDispute caller verdict)
    (h : resolveDispute d i.toEnv caller verdict s = .ok t) :
    settleVerdict d i s = some verdict := by
  simp only [resolveDispute, bind_eq_ok] at h
  obtain ⟨decision, hdecision, _⟩ := h
  obtain ⟨⟨u, arbiter, rfl⟩, _⟩ := resolveDecision_ok hs hdecision
  simp [settleVerdict, hcall, hdecision]

theorem extendDeadline_move (hs : Represents s D) {newDeadline : ℕ} (hcall : i.call.quiet)
    (h : extendDeadline i.toEnv newDeadline s = .ok t) : Refines d i D t := by
  simp only [extendDeadline, bind_eq_ok, pure_eq_ok] at h
  obtain ⟨_, _, _, _, _, _, _, _, _, _, _, _, _, _, _, _, _, _, _, _, rfl⟩ := h
  exact (Move.idle D hcall).refines { hs with }

theorem setPaused_move (hs : Represents s D) {paused : Bool} (hcall : i.call.quiet)
    (h : setPaused d i.toEnv paused s = .ok t) : Refines d i D t := by
  simp only [setPaused, bind_eq_ok, pure_eq_ok] at h
  obtain ⟨_, _, _, _, _, _, rfl⟩ := h
  exact (Move.idle D hcall).refines { hs with }

theorem bump_move (hs : Represents s D) (hcall : i.call.quiet) (h : bump s = .ok t) : Refines d i D t := by
  simp only [bump, bind_eq_ok, pure_eq_ok] at h
  obtain ⟨_, _, rfl⟩ := h
  exact (Move.idle D hcall).refines hs

theorem Represents.not_alreadyInitialized (hs : Represents s D) {u : Unit} :
    rejectIf (s.state.isSome) EscrowError.alreadyInitialized ≠ .ok u := by
  simp [hs.state]

theorem exec_move (hs : Represents s D) (hnone : settleVerdict d i s = none)
    (h : exec d i s = .ok t) : Refines d i D t := by
  unfold exec at h
  cases hcall : i.call <;> simp only [hcall] at h
  case updateAmount => exact updateAmount_move hs hcall h
  case fund => exact fund_move hs (.inl hcall) h
  case markDelivered => exact markDelivered_move hs hcall h
  case approveDelivery => exact approveDelivery_move hs hcall h
  case releasePartial => exact releasePartial_move hs hcall h
  case requestRefund => exact requestRefund_move hs hcall h
  case requestPartialRefund => exact requestPartialRefund_move hs hcall h
  case claimExpiredRefund => exact claimExpiredRefund_move hs hcall h
  case cancel => exact cancel_move hs hcall h
  case mutualCancel => exact mutualCancel_move hs hcall h
  case approveMilestonePartial => exact approveMilestonePartial_move hs hcall h
  case releaseMilestone => exact releaseMilestone_move hs hcall h
  case extendDeadline => exact extendDeadline_move hs (by rw [hcall]; rfl) h
  case setFeeConfig => exact setFeeConfig_move hs hcall h
  case fundMultiToken => exact fundMultiToken_move hs hcall h
  case releaseMultiToken => exact releaseMultiToken_move hs hcall h
  case refundMultiToken => exact refundMultiToken_move hs hcall h
  case raiseDispute => exact raiseDispute_move hs hcall h
  case claimDisputeTimeout => exact claimDisputeTimeout_move hs hcall h
  case approveDispute => exact approveDispute_move hs hcall hnone h
  case resolveDispute =>
    rw [resolveDispute_settles hs hcall h] at hnone
    exact absurd hnone (by simp)
  case pause => exact setPaused_move hs (by rw [hcall]; rfl) h
  case unpause => exact setPaused_move hs (by rw [hcall]; rfl) h
  case bump => exact bump_move hs (by rw [hcall]; rfl) h
  -- every initialization begins with the same rejected guard
  all_goals
    obtain ⟨_, hguard, _⟩ := bind_eq_ok.mp h
    exact absurd hguard hs.not_alreadyInitialized

end Moves

end SorobanKit.Escrow
