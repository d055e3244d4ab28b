import SorobanKit.EscrowConsent

set_option autoImplicit false

/-!
# Money in custody

Deposits come in, releases, fees and refunds go out; what is held for the escrow is the
difference. A release is split into a net part and a fee that always add up to its gross
amount, so every payment changes what is held by exactly the amount it stands for. For an
escrow of one token without milestones that is the stored amount, at all times.
-/
namespace SorobanKit.Escrow
open HostInvocation HostTransfers HostRuns Deal

/-- The amount of `token` moved for `purpose`. -/
def moved (purpose : Purpose) (token : Address) (log : List (Transfer Purpose)) : ℤ :=
  sumOf (fun x => x.purpose = purpose ∧ x.token = token) log

/-- Deposits less everything that was paid out again. -/
def held (token : Address) (log : List (Transfer Purpose)) : ℤ :=
  moved .deposit token log - sumOf (fun x => x.purpose ≠ .deposit ∧ x.token = token) log

section Accounting
variable {token : Address} {self t : Address} {D : Deal}

@[simp] theorem held_nil : held token [] = 0 := rfl

@[simp] theorem held_append (xs ys : List (Transfer Purpose)) :
    held token (xs ++ ys) = held token xs + held token ys := by
  simp only [held, moved, sumOf_append]
  omega

@[simp] theorem moved_append (purpose : Purpose) (xs ys : List (Transfer Purpose)) :
    moved purpose token (xs ++ ys) = moved purpose token xs + moved purpose token ys := by
  simp only [moved, sumOf_append]

/-- Every token that came in is held, or was released, taken as a fee or refunded. -/
theorem moved_out_eq (token : Address) (log : List (Transfer Purpose)) :
    moved .release token log + moved .fee token log + moved .refund token log =
      moved .deposit token log - held token log := by
  induction log with
  | nil => rfl
  | cons x log ih =>
    simp only [held, moved, sumOf_cons] at ih ⊢
    cases x.purpose <;> by_cases h : x.token = token <;> simp [h] at ih ⊢ <;> omega

theorem held_depositPay (amount : ℤ) :
    held t (D.depositPay self token amount) = if token = t then amount else 0 := by
  by_cases h : token = t <;> simp [held, moved, depositPay, h]

theorem held_refundPay (amount : ℤ) :
    held t (D.refundPay self token amount) = -(if token = t then amount else 0) := by
  by_cases h : token = t <;> simp [held, moved, refundPay, h]

/-- Net and fee add up to the gross amount, whatever the fee and its rounding. -/
theorem held_releasePay {gross : ℤ} (hgross : 0 ≤ gross) :
    held t (D.releasePay self token gross) = -(if token = t then gross else 0) := by
  have hfee := feeOn_nonneg D hgross
  unfold releasePay
  cases hD : D.fee with
  | none =>
    have hzero : D.feeOn gross = 0 := by simp [feeOn, hD]
    by_cases h : token = t <;> simp [held, moved, h, hzero]
  | some f =>
    by_cases hpos : 0 < D.feeOn gross
    · by_cases h : token = t <;> simp [held, moved, h, hpos]
    · have hzero : D.feeOn gross = 0 := by omega
      by_cases h : token = t <;> simp [held, moved, h, hzero]

theorem held_ifDue {amount : ℤ} {payments : List (Transfer Purpose)}
    (h : 0 < amount → held t payments = -(if token = t then amount else 0)) :
    held t (ifDue amount payments) = -(if token = t then max amount 0 else 0) := by
  unfold ifDue
  split
  · rename_i hpos
    rw [h hpos, max_eq_left (by omega)]
  · rw [max_eq_right (by omega)]
    simp

theorem held_release_due (amount : ℤ) :
    held t (ifDue amount (D.releasePay self token amount)) =
      -(if token = t then max amount 0 else 0) :=
  held_ifDue fun hpos => held_releasePay (le_of_lt hpos)

theorem held_refund_due (amount : ℤ) :
    held t (ifDue amount (D.refundPay self token amount)) =
      -(if token = t then max amount 0 else 0) :=
  held_ifDue fun _ => held_refundPay amount

/-- A deposit comes from elsewhere, and every other payment goes elsewhere. -/
def Outward (contract : Address) (x : Transfer Purpose) : Prop :=
  x.Crosses (fun purpose => purpose = .deposit) contract

theorem outward_deposit {x : Transfer Purpose} (hp : x.purpose = .deposit) :
    Outward self x ↔ x.source ≠ self ∧ x.target = self := by
  simp [Outward, Transfer.Crosses, hp]

theorem outward_payment {x : Transfer Purpose} (hp : x.purpose ≠ .deposit) :
    Outward self x ↔ x.source = self ∧ x.target ≠ self := by
  simp [Outward, Transfer.Crosses, hp]

/-- An honest token holds for the contract what the accounting says, if the contract is
    not a party to its own escrow. -/
theorem gain_eq_held {log : List (Transfer Purpose)} (h : ∀ x ∈ log, Outward self x) :
    gain token self log = held token log := by
  rw [gain_of_crosses h, held, moved]
  simp only [decide_eq_true_eq, ne_eq]

end Accounting

def Call.isSingleToken : Call → Bool
  | .initializeEscrow .. | .initializeWithAbandonmentBuffer .. | .initializeWithArbiters .. => true
  | _ => false

theorem Deal.RefundBy.closes {D : Deal} {i : Invocation} {final : EscrowState}
    (h : D.RefundBy i final) : D.state.active ∧ final.active = false := by
  unfold RefundBy at h
  cases hcall : i.call <;> simp only [hcall] at h
  case mutualCancel =>
    obtain ⟨_, hstate | hstate, rfl⟩ := h <;> rw [hstate] <;> exact ⟨rfl, rfl⟩
  all_goals
    obtain ⟨_, hstate, rfl⟩ := h
    rw [hstate]
    exact ⟨rfl, rfl⟩

structure Custody (D : Deal) : Prop where
  schedule : D.schedule = none
  basket : D.basket = none
  amount_nonneg : 0 ≤ D.amount
  held : held D.token D.log = if D.state.active then D.amount else 0

theorem Custody.owed {D : Deal} (h : Custody D) : D.owed = D.amount := by
  simp [Deal.owed, h.schedule]

theorem custody_opening {call : Call} {D : Deal} (hsingle : call.isSingleToken)
    (h : Opening call D) : Custody D := by
  have hschedule := h.schedule
  have hbasket := h.basket
  have hpos := h.amount_pos
  refine ⟨?_, ?_, by omega, by rw [h.log, h.state]; rfl⟩
  all_goals
    cases call <;> first
      | assumption
      | exact absurd hsingle (by simp [Call.isSingleToken])

/-- What is held follows the amount through every move. -/
theorem custody_move {self : Address} {i : Invocation} {D D' : Deal} (hD : Custody D)
    (h : Move self i D D') : Custody D' := by
  have hheld := hD.held
  have hnonneg := hD.amount_nonneg
  cases h with
  | idle => exact hD
  | configured | recorded => exact { hD with }
  | updated amount hcall hpos hstate =>
    rw [hstate] at hheld
    exact { hD with amount_nonneg := by simp only; omega, held := by simp only [hstate]; exact hheld }
  | cancelled hcall hstate =>
    rw [hstate] at hheld
    exact { hD with held := hheld }
  | funded hcall hauth hstate =>
    rw [hstate] at hheld
    refine { hD with held := ?_ }
    simp only [held_append, held_depositPay, hheld]
    simp [EscrowState.active]
  | fundedBasket B hcall hB | releasedBasket B hcall hB | refundedBasket B hcall hB =>
    rw [hD.basket] at hB
    cases hB
  | delivered hcall hstate =>
    rw [hstate] at hheld
    exact { hD with held := hheld }
  | disputed caller hcall hstate =>
    refine { hD with held := ?_ }
    rcases hstate with hstate | hstate <;> rw [hstate] at hheld <;> exact hheld
  | releasedPart gross hcall hauth hstate hpos hle =>
    rw [hstate] at hheld
    refine { hD with amount_nonneg := by simp only; omega, held := ?_ }
    simp only [held_append, held_releasePay (le_of_lt hpos), hheld, hstate, EscrowState.active,
      ↓reduceIte]
    omega
  | releasedStage S k m gross hcall hstate hS =>
    rw [hD.schedule] at hS
    cases hS
  | released hcall hstate =>
    rw [hstate] at hheld
    refine ⟨by simp [close, hD.schedule], hD.basket, le_refl 0, ?_⟩
    simp only [close, held_append, held_release_due, hheld, hD.owed, EscrowState.active,
      ↓reduceIte, Bool.false_eq_true]
    omega
  | refunded final hcall =>
    obtain ⟨hactive, hfinal⟩ := hcall.closes
    rw [hactive] at hheld
    refine ⟨by simp [close, hD.schedule], hD.basket, le_refl 0, ?_⟩
    simp only [close, held_append, held_refund_due, hheld, hD.owed, hfinal, ↓reduceIte,
      Bool.false_eq_true]
    omega

/-- Where a transfer of the log went. The treasury changes over time, so the target of a
    fee is stated for the step that pays it. -/
def Booked (self : Address) (s : State) (x : Transfer Purpose) : Prop :=
  s.tokenContract = some x.token ∧
    match x.purpose with
    | .deposit => s.buyer = some x.source ∧ x.target = self
    | .release => x.source = self ∧ s.seller = some x.target
    | .fee => x.source = self
    | .refund => x.source = self ∧ s.buyer = some x.target

theorem booked_of_routed {self : Address} {s : State} {D : Deal} {x : Transfer Purpose}
    (hs : Represents s D) (htoken : x.token = D.token) (h : Routed self D x) :
    Booked self s x := by
  refine ⟨by rw [hs.token, htoken], ?_⟩
  unfold Routed at h
  cases hp : x.purpose <;> simp only [hp] at h ⊢
  case deposit => exact ⟨by rw [hs.buyer, h.1], h.2⟩
  case release => exact ⟨h.1, by rw [hs.seller, h.2]⟩
  case fee => exact h.1
  case refund => exact ⟨h.1, by rw [hs.buyer, h.2]⟩

/-- Without a basket only the one token moves. -/
theorem Move.token_eq {self : Address} {i : Invocation} {D D' : Deal} (h : Move self i D D')
    (hbasket : D.basket = none) {new : List (Transfer Purpose)} (hlog : D'.log = D.log ++ new) :
    ∀ x ∈ new, x.token = D.token := by
  intro x hx
  cases h with
  | idle | configured | recorded | updated | cancelled | delivered | disputed =>
    have hnil : new = [] := by simpa using hlog
    simp [hnil] at hx
  | funded hcall hauth hstate =>
    rw [← List.append_cancel_left hlog] at hx
    exact (mem_depositPay hx).2.1
  | fundedBasket B hcall hB | releasedBasket B hcall hB | refundedBasket B hcall hB =>
    rw [hbasket] at hB
    cases hB
  | releasedPart gross hcall hauth hstate =>
    rw [← List.append_cancel_left hlog] at hx
    exact (mem_releasePay hx).2.1
  | releasedStage S k m gross hcall hstate =>
    rw [← List.append_cancel_left hlog] at hx
    rcases List.mem_append.mp hx with hx | hx
    · exact (mem_releasePay (mem_ifDue hx).2).2.1
    · exact (mem_refundPay (mem_ifDue hx).2).2.1
  | released hcall hstate =>
    rw [← List.append_cancel_left hlog] at hx
    exact (mem_releasePay (mem_ifDue hx).2).2.1
  | refunded final hcall =>
    rw [← List.append_cancel_left hlog] at hx
    exact (mem_refundPay (mem_ifDue hx).2).2.1

/-- What is said about the custody of a single-token escrow in one state. -/
structure InCustody (self : Address) (s : State) : Prop where
  held : ∃ state amount token, s.state = some state ∧ s.amount = some amount ∧
    s.tokenContract = some token ∧
    Escrow.held token s.transfers = (if state.active then amount else 0)
  paid : ∀ token, moved .release token s.transfers + moved .fee token s.transfers +
    moved .refund token s.transfers = moved .deposit token s.transfers -
      Escrow.held token s.transfers
  booked : ∀ x ∈ s.transfers, Booked self s x
  ledger : s.buyer ≠ some self → (∀ x ∈ s.transfers, x.purpose ≠ .deposit → x.target ≠ self) →
    ∀ ledger token, replay ledger s.transfers token self =
      ledger token self + Escrow.held token s.transfers

theorem ledger_of_booked {self : Address} {s : State} (h : ∀ x ∈ s.transfers, Booked self s x)
    (hbuyer : s.buyer ≠ some self)
    (hpayee : ∀ x ∈ s.transfers, x.purpose ≠ .deposit → x.target ≠ self) (ledger : Ledger)
    (token : Address) :
    replay ledger s.transfers token self = ledger token self + held token s.transfers := by
  rw [replay_eq_gain, gain_eq_held]
  intro x hx
  have hbook := (h x hx).2
  by_cases hp : x.purpose = .deposit
  · rw [outward_deposit hp]
    simp only [hp] at hbook
    refine ⟨?_, hbook.2⟩
    rintro rfl
    exact hbuyer hbook.1
  · rw [outward_payment hp]
    refine ⟨?_, hpayee x hx hp⟩
    cases hpurpose : x.purpose <;> simp only [hpurpose] at hbook
    case deposit => exact absurd hpurpose hp
    case release => exact hbook.1
    case fee => exact hbook
    case refund => exact hbook.1

theorem booked_move {self : Address} {i : Invocation} {s t : State} {D D' : Deal}
    (hs : Represents s D) (ht : Represents t D') (hbasket : D.basket = none)
    (hmove : Move self i D D') (h : ∀ x ∈ s.transfers, Booked self s x) :
    ∀ x ∈ t.transfers, Booked self t x := by
  obtain ⟨hbuyer, hseller, _, htoken⟩ := hmove.parties
  obtain ⟨new, hlog, hnew⟩ := hmove.payments
  have hsame : ∀ x, Booked self s x → Booked self t x := by
    intro x hx
    unfold Booked at hx ⊢
    rw [hs.token, hs.buyer, hs.seller] at hx
    rw [ht.token, ht.buyer, ht.seller, hbuyer, hseller, htoken]
    exact hx
  intro x hx
  rw [ht.log, hlog, List.mem_append, ← hs.log] at hx
  rcases hx with hx | hx
  · exact hsame x (h x hx)
  · exact hsame x (booked_of_routed hs (hmove.token_eq hbasket hlog x hx) (hnew x hx).1)

theorem feeTarget_step {d : Deployment} {i : Invocation} {s : State} {D : Deal}
    (hs : Represents s D) (hnone : NoSettle d s i) :
    ∃ new, (step (exec d) s i).transfers = s.transfers ++ new ∧
      ∀ x ∈ new, x.purpose = .fee → s.treasury = some x.target := by
  rcases step_cases (exec d) s i with hok | hid
  · obtain ⟨D', ht, hmove⟩ := exec_move hs hnone hok
    obtain ⟨new, hlog, hnew⟩ := hmove.payments
    refine ⟨new, by rw [ht.log, hs.log, hlog], fun x hx hp => ?_⟩
    have hroute := (hnew x hx).1
    simp only [Routed, hp] at hroute
    rw [hs.treasury]
    exact hroute.2
  · rw [hid]
    exact ⟨[], by simp, by simp⟩

/-- The contract holds exactly the stored amount while a single-token escrow is active and
    nothing before and after; what left it went to the seller, to the treasury of the
    moment or back to the buyer. -/
theorem single_token_custody (d : Deployment) (i₀ : Invocation) (s₀ : State)
    (is : List Invocation) (hsingle : i₀.call.isSingleToken)
    (hcreate : exec d i₀ State.empty = .ok s₀) (h : Along (exec d) (NoSettle d) s₀ is) :
    InCustody d.contractAddress (run d s₀ is) ∧
      ∀ i, NoSettle d (run d s₀ is) i →
        ∃ new, (step (exec d) (run d s₀ is) i).transfers = (run d s₀ is).transfers ++ new ∧
          ∀ x ∈ new, x.purpose = .fee → (run d s₀ is).treasury = some x.target := by
  have hinit : i₀.call.isInitialize := by
    cases hcall : i₀.call <;> rw [hcall] at hsingle <;> first | rfl | cases hsingle
  obtain ⟨D₀, hs₀, hopen⟩ := exec_opening hinit hcreate
  have hrun : ∃ D, Represents (run d s₀ is) D ∧ Custody D ∧
      ∀ x ∈ (run d s₀ is).transfers, Booked d.contractAddress (run d s₀ is) x := by
    refine run_invariant_along (I := fun s => ∃ D, Represents s D ∧ Custody D ∧
      ∀ x ∈ s.transfers, Booked d.contractAddress s x) ?_
      ⟨D₀, hs₀, custody_opening hsingle hopen, by simp [hs₀.log, hopen.log]⟩ h
    rintro s i t ⟨D, hs, hD, hbook⟩ hnone ht
    obtain ⟨D', ht', hmove⟩ := exec_move hs hnone ht
    exact ⟨D', ht', custody_move hD hmove, booked_move hs ht' hD.basket hmove hbook⟩
  obtain ⟨D, hs, hD, hbook⟩ := hrun
  refine ⟨⟨⟨D.state, D.amount, D.token, hs.state, hs.amount, hs.token, ?_⟩, ?_, hbook, ?_⟩,
    fun i hi => feeTarget_step hs hi⟩
  · rw [hs.log]
    exact hD.held
  · exact fun token => moved_out_eq token _
  · exact fun hbuyer hpayee ledger token => ledger_of_booked hbook hbuyer hpayee ledger token

/-- A fee of 2.5 % on the first part, of 100 % on the second, and a refund of the rest. -/
def demoParts : List Invocation :=
  [demoCall [demoBuyer] .fund, demoCall [demoAdmin] (.setFeeConfig 250 ⟨7⟩),
    demoCall [demoBuyer] (.releasePartial 30), demoCall [demoAdmin] (.setFeeConfig 10000 ⟨8⟩),
    demoCall [demoBuyer] (.releasePartial 20), demoCall [demoBuyer] .requestPartialRefund]

theorem single_token_custody_demo :
    (run demoDeployment demoSingleState demoParts).state = some .refunded ∧
      InCustody demoSelf (run demoDeployment demoSingleState demoParts) :=
  ⟨by decide +kernel, (single_token_custody demoDeployment demoSingle demoSingleState demoParts
    rfl rfl ⟨rfl, rfl, rfl, rfl, rfl, rfl, trivial⟩).1⟩

end SorobanKit.Escrow
