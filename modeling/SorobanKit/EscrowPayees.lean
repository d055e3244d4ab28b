import SorobanKit.EscrowCustody

set_option autoImplicit false

/-!
# Payees outside the contract

A payment of the contract to its own address leaves the money where it is, and both the
initialize calls and `set_fee_config` accept that address. What is held for the escrow is
what the contract has gained only if the buyer who funds it, the seller and the treasury of
the moment are someone else.
-/
namespace SorobanKit.Escrow
open HostInvocation HostTransfers Deal

def PayeesOutside (self : Address) (s : State) : Prop :=
  s.seller ≠ some self ∧ s.treasury ≠ some self

/-- A call that funds the escrow has an outside buyer, and one that releases has outside
    payees. -/
def PaysOutside (self : Address) (s : State) (i : Invocation) : Prop :=
  match i.call with
  | .fund | .fundMultiToken => s.state = some .created → s.buyer ≠ some self
  | .releasePartial _ | .releaseMilestone _ _ | .approveMilestonePartial _ _ =>
    s.state = some .funded → PayeesOutside self s
  | .approveDelivery | .releaseMultiToken => s.state = some .delivered → PayeesOutside self s
  | _ => True

section Payments
variable {self token : Address} {log : List (Transfer Purpose)} {D : Deal}

theorem outward_depositPay (hbuyer : D.buyer ≠ self) (amount : ℤ) :
    ∀ x ∈ D.depositPay self token amount, Outward self x := by
  intro x hx
  obtain ⟨hp, _, hroute⟩ := mem_depositPay hx
  simp only [Routed, hp] at hroute
  rw [outward_deposit hp, hroute.1]
  exact ⟨hbuyer, hroute.2⟩

theorem outward_refundPay (hbuyer : D.buyer ≠ self) (amount : ℤ) :
    ∀ x ∈ D.refundPay self token amount, Outward self x := by
  intro x hx
  obtain ⟨hp, _, hroute⟩ := mem_refundPay hx
  simp only [Routed, hp] at hroute
  rw [outward_payment (by simp [hp]), hroute.2]
  exact ⟨hroute.1, hbuyer⟩

theorem outward_releasePay (hseller : D.seller ≠ self)
    (htreasury : D.fee.map FeeConfig.treasury ≠ some self) (gross : ℤ) :
    ∀ x ∈ D.releasePay self token gross, Outward self x := by
  intro x hx
  obtain ⟨hp, _, hroute⟩ := mem_releasePay hx
  rcases hp with hp | hp
  · simp only [Routed, hp] at hroute
    rw [outward_payment (by simp [hp]), hroute.2]
    exact ⟨hroute.1, hseller⟩
  · simp only [Routed, hp] at hroute
    rw [outward_payment (by simp [hp])]
    refine ⟨hroute.1, fun htarget => htreasury ?_⟩
    rw [hroute.2, htarget]

theorem outward_ifDue {amount : ℤ} (h : ∀ x ∈ log, Outward self x) :
    ∀ x ∈ ifDue amount log, Outward self x := fun x hx => h x (mem_ifDue hx).2

theorem outward_flatMap {items : List (Address × ℤ)} {f : Address × ℤ → List (Transfer Purpose)}
    (h : ∀ item, ∀ x ∈ f item, Outward self x) : ∀ x ∈ items.flatMap f, Outward self x := by
  intro x hx
  obtain ⟨item, _, hx⟩ := List.mem_flatMap.mp hx
  exact h item x hx

end Payments

/-- The buyer of a funded deal is someone else, and so is every payee. -/
structure Clear (contract : Address) (D : Deal) : Prop where
  buyer : D.state.active → D.buyer ≠ contract
  log : ∀ x ∈ D.log, Outward contract x

theorem clear_opening {self : Address} {call : Call} {D : Deal} (h : Opening call D) :
    Clear self D := by
  refine ⟨?_, by simp [h.log]⟩
  rw [h.state]
  intro hactive
  cases hactive

section Moves
variable {self : Address} {i : Invocation} {s : State} {D D' : Deal}

theorem Clear.append (hD : Clear self D) {payments : List (Transfer Purpose)}
    (h : ∀ x ∈ payments, Outward self x) : ∀ x ∈ D.log ++ payments, Outward self x :=
  List.forall_mem_append.mpr ⟨hD.log, h⟩

theorem PayeesOutside.deal (h : PayeesOutside self s) (hs : Represents s D) :
    D.seller ≠ self ∧ D.fee.map FeeConfig.treasury ≠ some self := by
  obtain ⟨hseller, htreasury⟩ := h
  rw [hs.seller] at hseller
  rw [hs.treasury] at htreasury
  exact ⟨fun h => hseller (by rw [h]), htreasury⟩

theorem PaysOutside.buyer (h : PaysOutside self s i) (hs : Represents s D)
    (hcall : i.call = .fund ∨ i.call = .fundMultiToken) (hstate : D.state = .created) :
    D.buyer ≠ self := by
  have hbuyer : s.buyer ≠ some self := by
    unfold PaysOutside at h
    rcases hcall with hcall | hcall
    · rw [hcall] at h
      exact h (by rw [hs.state, hstate])
    · rw [hcall] at h
      exact h (by rw [hs.state, hstate])
  rw [hs.buyer] at hbuyer
  exact fun hsame => hbuyer (by rw [hsame])

theorem PaysOutside.stage {k : ℕ} {m : Milestone} {gross : ℤ} (h : PaysOutside self s i)
    (hs : Represents s D) (hcall : D.StageBy i k m gross) (hstate : D.state = .funded) :
    D.seller ≠ self ∧ D.fee.map FeeConfig.treasury ≠ some self := by
  unfold StageBy at hcall
  unfold PaysOutside at h
  cases hkind : i.call <;> simp only [hkind] at h hcall
  case releaseMilestone => exact (h (by rw [hs.state, hstate])).deal hs
  case approveMilestonePartial => exact (h (by rw [hs.state, hstate])).deal hs

theorem PaysOutside.delivered (h : PaysOutside self s i) (hs : Represents s D)
    (hcall : i.call = .approveDelivery ∨ i.call = .releaseMultiToken)
    (hstate : D.state = .delivered) :
    D.seller ≠ self ∧ D.fee.map FeeConfig.treasury ≠ some self := by
  unfold PaysOutside at h
  rcases hcall with hcall | hcall
  · rw [hcall] at h
    exact (h (by rw [hs.state, hstate])).deal hs
  · rw [hcall] at h
    exact (h (by rw [hs.state, hstate])).deal hs

theorem clear_move (hs : Represents s D) (hD : Clear self D) (hout : PaysOutside self s i)
    (h : Move self i D D') : Clear self D' := by
  cases h with
  | idle => exact hD
  | configured | recorded | updated => exact { hD with }
  | cancelled hcall hstate => exact ⟨(fun hactive => by cases hactive), hD.log⟩
  | funded hcall hauth hstate =>
    have hbuyer := hout.buyer hs (hcall.imp_right And.left) hstate
    exact ⟨fun _ => hbuyer, hD.append (outward_depositPay hbuyer _)⟩
  | fundedBasket B hcall hB hauth hstate =>
    have hbuyer := hout.buyer hs (.inr hcall) hstate
    exact ⟨fun _ => hbuyer, hD.append (outward_flatMap fun item => outward_depositPay hbuyer _)⟩
  | delivered hcall hstate => exact ⟨fun _ => hD.buyer (by rw [hstate]; rfl), hD.log⟩
  | disputed caller hcall hstate =>
    refine ⟨fun _ => hD.buyer ?_, hD.log⟩
    rcases hstate with hstate | hstate <;> rw [hstate] <;> rfl
  | releasedPart gross hcall hauth hstate hpos hle =>
    have hpayees : D.seller ≠ self ∧ D.fee.map FeeConfig.treasury ≠ some self := by
      unfold PaysOutside at hout
      rw [hcall] at hout
      exact (hout (by rw [hs.state, hstate])).deal hs
    exact ⟨hD.buyer, hD.append (outward_releasePay hpayees.1 hpayees.2 _)⟩
  | releasedStage S k m gross hcall hstate hS hm hk hopen =>
    have hpayees := hout.stage hs hcall hstate
    have hbuyer := hD.buyer (by rw [hstate]; rfl)
    refine ⟨fun _ => hbuyer, hD.append (List.forall_mem_append.mpr ⟨?_, ?_⟩)⟩
    · exact outward_ifDue (outward_releasePay hpayees.1 hpayees.2 _)
    · exact outward_ifDue (outward_refundPay hbuyer _)
  | released hcall hstate =>
    have hpayees := hout.delivered hs (hcall.imp And.left And.left) hstate
    exact ⟨(fun hactive => by cases hactive),
      hD.append (outward_ifDue (outward_releasePay hpayees.1 hpayees.2 _))⟩
  | releasedBasket B hcall hB hstate =>
    have hpayees := hout.delivered hs (.inr hcall) hstate
    exact ⟨(fun hactive => by cases hactive),
      hD.append (outward_flatMap fun item => outward_releasePay hpayees.1 hpayees.2 _)⟩
  | refunded final hcall =>
    obtain ⟨hactive, hfinal⟩ := hcall.closes
    refine ⟨fun h => ?_, hD.append (outward_ifDue (outward_refundPay (hD.buyer hactive) _))⟩
    rw [show (D.close final _).state = final from rfl, hfinal] at h
    cases h
  | refundedBasket B hcall hB hstate =>
    have hbuyer := hD.buyer (by rw [hstate]; rfl)
    exact ⟨(fun hactive => by cases hactive),
      hD.append (outward_flatMap fun item => outward_refundPay hbuyer _)⟩

end Moves

end SorobanKit.Escrow
