import SorobanKit.EscrowStates

set_option autoImplicit false

/-!
# Who can make the escrow pay

`Move.payments` says where every new transfer goes and whose authorization stands behind
it. Payments to the seller rest on the buyer or on the arbiter in every entry point except
`release_multi_token`, which asks nobody.
-/
namespace SorobanKit.Escrow
open HostInvocation HostTransfers HostRuns Deal

/-- The entry points through which the buyer pays the seller. -/
def Call.buyerRelease : Call → Bool
  | .approveDelivery | .releasePartial _ | .approveMilestonePartial _ _ | .releaseMilestone _ _ =>
    true
  | _ => false

/-- The entry point through which the arbiter pays the seller. -/
def Call.arbiterRelease : Call → Bool
  | .releaseMilestone _ _ => true
  | _ => false

def Routed (self : Address) (D : Deal) (x : Transfer Purpose) : Prop :=
  match x.purpose with
  | .deposit => x.source = D.buyer ∧ x.target = self
  | .release => x.source = self ∧ x.target = D.seller
  | .fee => x.source = self ∧ D.fee.map FeeConfig.treasury = some x.target
  | .refund => x.source = self ∧ x.target = D.buyer

def Warranted (i : Invocation) (D : Deal) : Purpose → Prop
  | .deposit => D.buyer ∈ i.auths
  | .release | .fee =>
    D.buyer ∈ i.auths ∧ i.call.buyerRelease ∨ D.arbiter ∈ i.auths ∧ i.call.arbiterRelease ∨
      i.call = .releaseMultiToken ∧ D.state = .delivered
  | .refund => D.buyer ∈ i.auths ∨ i.call = .refundMultiToken ∧ D.state = .funded

theorem mem_ifDue {amount : ℤ} {payments : List (Transfer Purpose)} {x : Transfer Purpose}
    (h : x ∈ ifDue amount payments) : 0 < amount ∧ x ∈ payments := by
  unfold ifDue at h
  split at h
  · exact ⟨by assumption, h⟩
  · simp at h

theorem mem_releasePay {D : Deal} {self token : Address} {gross : ℤ} {x : Transfer Purpose}
    (h : x ∈ D.releasePay self token gross) :
    (x.purpose = .release ∨ x.purpose = .fee) ∧ x.token = token ∧ Routed self D x := by
  unfold releasePay at h
  rcases List.mem_cons.mp h with rfl | h
  · exact ⟨.inl rfl, rfl, rfl, rfl⟩
  · cases hfee : D.fee with
    | none => simp [hfee] at h
    | some f =>
      simp only [hfee] at h
      split at h
      · simp only [List.mem_singleton] at h
        subst h
        refine ⟨.inr rfl, rfl, rfl, ?_⟩
        rw [hfee]
        rfl
      · simp at h

theorem mem_refundPay {D : Deal} {self token : Address} {amount : ℤ} {x : Transfer Purpose}
    (h : x ∈ D.refundPay self token amount) :
    x.purpose = .refund ∧ x.token = token ∧ Routed self D x := by
  simp only [refundPay, List.mem_singleton] at h
  subst h
  exact ⟨rfl, rfl, rfl, rfl⟩

theorem mem_depositPay {D : Deal} {self token : Address} {amount : ℤ} {x : Transfer Purpose}
    (h : x ∈ D.depositPay self token amount) :
    x.purpose = .deposit ∧ x.token = token ∧ Routed self D x := by
  simp only [depositPay, List.mem_singleton] at h
  subst h
  exact ⟨rfl, rfl, rfl, rfl⟩

section Payments
variable {self : Address} {i : Invocation} {D D' : Deal}

theorem warranted_release {x : Transfer Purpose} (hx : x.purpose = .release ∨ x.purpose = .fee)
    (h : D.buyer ∈ i.auths ∧ i.call.buyerRelease ∨ D.arbiter ∈ i.auths ∧ i.call.arbiterRelease ∨
      i.call = .releaseMultiToken ∧ D.state = .delivered) : Warranted i D x.purpose := by
  rcases hx with hx | hx <;> rw [hx] <;> exact h

theorem Deal.StageBy.warrants {k : ℕ} {m : Milestone} {gross : ℤ} (h : D.StageBy i k m gross) :
    (D.buyer ∈ i.auths ∧ i.call.buyerRelease ∨ D.arbiter ∈ i.auths ∧ i.call.arbiterRelease) ∧
      (gross < m.amount → D.buyer ∈ i.auths) := by
  unfold StageBy at h
  cases hcall : i.call <;> simp only [hcall] at h
  case releaseMilestone =>
    obtain ⟨hauth, hcaller | hcaller, _, hgross⟩ := h <;> rw [hcaller] at hauth
    · exact ⟨.inl ⟨hauth, rfl⟩, by omega⟩
    · exact ⟨.inr ⟨hauth, rfl⟩, by omega⟩
  case approveMilestonePartial => exact ⟨.inl ⟨h.1, rfl⟩, fun _ => h.1⟩

theorem Deal.RefundBy.warrants {final : EscrowState} (h : D.RefundBy i final) :
    Warranted i D .refund := by
  unfold RefundBy at h
  cases hcall : i.call <;> simp only [hcall] at h
  case refundMultiToken => exact .inr ⟨hcall, h.2.1⟩
  all_goals exact .inl h.1

theorem Move.payments (h : Move self i D D') :
    ∃ new, D'.log = D.log ++ new ∧ ∀ x ∈ new, Routed self D x ∧ Warranted i D x.purpose := by
  cases h with
  | idle | configured | recorded | updated | cancelled | delivered | disputed =>
    exact ⟨[], by simp, by simp⟩
  | funded hcall hauth hstate =>
    refine ⟨_, rfl, fun x hx => ?_⟩
    obtain ⟨hp, _, hroute⟩ := mem_depositPay hx
    exact ⟨hroute, by rw [hp]; exact hauth⟩
  | fundedBasket B hcall hB hauth hstate =>
    refine ⟨_, rfl, fun x hx => ?_⟩
    obtain ⟨item, _, hx⟩ := List.mem_flatMap.mp hx
    obtain ⟨hp, _, hroute⟩ := mem_depositPay hx
    exact ⟨hroute, by rw [hp]; exact hauth⟩
  | releasedPart gross hcall hauth hstate hpos hle =>
    refine ⟨_, rfl, fun x hx => ?_⟩
    obtain ⟨hp, _, hroute⟩ := mem_releasePay hx
    exact ⟨hroute, warranted_release hp (.inl ⟨hauth, by rw [hcall]; rfl⟩)⟩
  | releasedStage S k m gross hcall hstate hS hm hk hopen =>
    refine ⟨_, rfl, fun x hx => ?_⟩
    rcases List.mem_append.mp hx with hx | hx
    · obtain ⟨hp, _, hroute⟩ := mem_releasePay (mem_ifDue hx).2
      refine ⟨hroute, warranted_release hp ?_⟩
      exact hcall.warrants.1.imp_right .inl
    · obtain ⟨hdue, hx⟩ := mem_ifDue hx
      obtain ⟨hp, _, hroute⟩ := mem_refundPay hx
      exact ⟨hroute, by rw [hp]; exact .inl (hcall.warrants.2 (by omega))⟩
  | released hcall hstate =>
    refine ⟨_, rfl, fun x hx => ?_⟩
    obtain ⟨hp, _, hroute⟩ := mem_releasePay (mem_ifDue hx).2
    refine ⟨hroute, warranted_release hp ?_⟩
    rcases hcall with ⟨hcall, hauth⟩ | ⟨hcall, _⟩
    · exact .inl ⟨hauth, by rw [hcall]; rfl⟩
    · exact .inr (.inr ⟨hcall, hstate⟩)
  | releasedBasket B hcall hB hstate =>
    refine ⟨_, rfl, fun x hx => ?_⟩
    obtain ⟨item, _, hx⟩ := List.mem_flatMap.mp hx
    obtain ⟨hp, _, hroute⟩ := mem_releasePay hx
    exact ⟨hroute, warranted_release hp (.inr (.inr ⟨hcall, hstate⟩))⟩
  | refunded final hcall =>
    refine ⟨_, rfl, fun x hx => ?_⟩
    obtain ⟨hp, _, hroute⟩ := mem_refundPay (mem_ifDue hx).2
    exact ⟨hroute, by rw [hp]; exact hcall.warrants⟩
  | refundedBasket B hcall hB hstate =>
    refine ⟨_, rfl, fun x hx => ?_⟩
    obtain ⟨item, _, hx⟩ := List.mem_flatMap.mp hx
    obtain ⟨hp, _, hroute⟩ := mem_refundPay hx
    exact ⟨hroute, by rw [hp]; exact .inr ⟨hcall, hstate⟩⟩

theorem Move.parties (h : Move self i D D') :
    D'.buyer = D.buyer ∧ D'.seller = D.seller ∧ D'.arbiter = D.arbiter ∧
      D'.token = D.token := by
  cases h <;> exact ⟨rfl, rfl, rfl, rfl⟩

end Payments

def Authorized (i : Invocation) (who : Option Address) : Prop := ∃ a ∈ i.auths, who = some a

/-- Every transfer of the step from the contract to the seller is consented to. -/
def SellerConsent (self : Address) (i : Invocation) (s t : State) : Prop :=
  ∃ new, t.transfers = s.transfers ++ new ∧
    ∀ x ∈ new, x.source = self → s.seller = some x.target →
      (Authorized i s.buyer ∧
          (x.purpose = .release ∨ x.purpose = .fee → i.call.buyerRelease)) ∨
        (Authorized i s.arbiter ∧ i.call.arbiterRelease)

/-- The two entry points that ask nobody are kept away from the seller. -/
def AsksConsent (s : State) (i : Invocation) : Prop :=
  match i.call with
  | .releaseMultiToken => s.state ≠ some .delivered
  | .refundMultiToken => s.state = some .funded → s.buyer ≠ s.seller
  | _ => True

section Consent
variable {d : Deployment} {i : Invocation} {s : State} {D : Deal}

theorem sellerConsent_of_move {t : State} (hs : Represents s D) (hask : AsksConsent s i)
    (ht : Refines d i D t) : SellerConsent d.contractAddress i s t := by
  obtain ⟨D', hD', hmove⟩ := ht
  obtain ⟨new, hlog, hnew⟩ := hmove.payments
  refine ⟨new, by rw [hs.log, hD'.log, hlog], ?_⟩
  intro x hx hsource hseller
  obtain ⟨hroute, hwarrant⟩ := hnew x hx
  rw [hs.seller, Option.some.injEq] at hseller
  have hbuyer : D.buyer ∈ i.auths → Authorized i s.buyer := fun ha => ⟨_, ha, hs.buyer⟩
  have hrelease : (D.buyer ∈ i.auths ∧ i.call.buyerRelease ∨
      D.arbiter ∈ i.auths ∧ i.call.arbiterRelease ∨
      i.call = .releaseMultiToken ∧ D.state = .delivered) →
      (Authorized i s.buyer ∧ (x.purpose = .release ∨ x.purpose = .fee → i.call.buyerRelease)) ∨
        (Authorized i s.arbiter ∧ i.call.arbiterRelease) := by
    rintro (⟨ha, hcall⟩ | ⟨ha, hcall⟩ | ⟨hcall, hstate⟩)
    · exact .inl ⟨hbuyer ha, fun _ => hcall⟩
    · exact .inr ⟨⟨_, ha, hs.arbiter⟩, hcall⟩
    · simp only [AsksConsent, hcall] at hask
      exact absurd (by rw [hs.state, hstate]) hask
  cases hp : x.purpose with
  | release =>
    rw [hp] at hwarrant hrelease
    exact hrelease hwarrant
  | fee =>
    rw [hp] at hwarrant hrelease
    exact hrelease hwarrant
  | deposit =>
    rw [hp] at hwarrant
    exact .inl ⟨hbuyer hwarrant, by simp⟩
  | refund =>
    simp only [Routed, hp] at hroute
    rw [hp] at hwarrant
    rcases hwarrant with ha | ⟨hcall, hstate⟩
    · exact .inl ⟨hbuyer ha, by simp⟩
    · -- the refund would go to a buyer who is the seller
      simp only [AsksConsent, hcall] at hask
      have hne := hask (by rw [hs.state, hstate])
      rw [hs.buyer, hs.seller, hseller, hroute.2] at hne
      exact absurd rfl hne

theorem sellerConsent_step (hs : Represents s D) (hnone : NoSettle d s i)
    (hask : AsksConsent s i) :
    SellerConsent d.contractAddress i s (step (exec d) s i) := by
  rcases step_cases (exec d) s i with hok | hid
  · exact sellerConsent_of_move hs hask (exec_move hs hnone hok)
  · rw [hid]
    exact ⟨[], by simp, by simp⟩

/-- Neither the buyer nor the arbiter has a part in this invocation. -/
def Stranger (buyer arbiter : Option Address) (i : Invocation) : Prop :=
  ¬ Authorized i buyer ∧ ¬ Authorized i arbiter

theorem strangers_pay_nothing {js : List Invocation} (hs : Represents s D)
    (h : Along (exec d) (fun s i => NoSettle d s i ∧ AsksConsent s i) s js)
    (hjs : ∀ i ∈ js, Stranger s.buyer s.arbiter i) :
    ∃ new, (run d s js).transfers = s.transfers ++ new ∧
      ∀ x ∈ new, x.source = d.contractAddress → s.seller ≠ some x.target := by
  induction js generalizing s D with
  | nil => exact ⟨[], by simp [run], by simp⟩
  | cons i js ih =>
    obtain ⟨hnone, hask⟩ := h.1
    have hstranger := hjs i (by simp)
    obtain ⟨first, hfirst, hconsent⟩ := sellerConsent_step hs hnone hask
    -- the parties are the same after the step
    obtain ⟨D', hs', hbuyer, hseller, harbiter, _⟩ : ∃ D', Represents (step (exec d) s i) D' ∧
        D'.buyer = D.buyer ∧ D'.seller = D.seller ∧ D'.arbiter = D.arbiter ∧
        D'.token = D.token := by
      rcases step_cases (exec d) s i with hok | hid
      · obtain ⟨D', hs', hmove⟩ := exec_move hs hnone hok
        exact ⟨D', hs', hmove.parties⟩
      · rw [hid]
        exact ⟨D, hs, rfl, rfl, rfl, rfl⟩
    have hsame : ∀ j ∈ js, Stranger (step (exec d) s i).buyer (step (exec d) s i).arbiter j := by
      intro j hj
      rw [hs'.buyer, hs'.arbiter, hbuyer, harbiter, ← hs.buyer, ← hs.arbiter]
      exact hjs j (by simp [hj])
    obtain ⟨rest, hrest, hnew⟩ := ih hs' h.2 hsame
    refine ⟨first ++ rest, ?_, ?_⟩
    · rw [← List.append_assoc, ← hfirst, ← hrest]
      rfl
    · intro x hx hsource
      rcases List.mem_append.mp hx with hx | hx
      · intro htarget
        rcases hconsent x hx hsource htarget with ⟨ha, _⟩ | ⟨ha, _⟩
        · exact hstranger.1 ha
        · exact hstranger.2 ha
      · have hne := hnew x hx hsource
        rw [hs'.seller, hseller, ← hs.seller] at hne
        exact hne

end Consent

/-- The seller is paid only with the consent of the buyer or the arbiter, and steps of
    anybody else pay the seller nothing. -/
theorem seller_consent (d : Deployment) (i₀ : Invocation) (s₀ : State) (is : List Invocation)
    (hinit : i₀.call.isInitialize) (hcreate : exec d i₀ State.empty = .ok s₀)
    (h : Along (exec d) (fun s i => NoSettle d s i ∧ AsksConsent s i) s₀ is) :
    (∀ i, NoSettle d (run d s₀ is) i → AsksConsent (run d s₀ is) i →
      SellerConsent d.contractAddress i (run d s₀ is) (step (exec d) (run d s₀ is) i)) ∧
    ∀ js, Along (exec d) (fun s i => NoSettle d s i ∧ AsksConsent s i) (run d s₀ is) js →
      (∀ i ∈ js, Stranger (run d s₀ is).buyer (run d s₀ is).arbiter i) →
      ∃ new, (run d (run d s₀ is) js).transfers = (run d s₀ is).transfers ++ new ∧
        ∀ x ∈ new, x.source = d.contractAddress → (run d s₀ is).seller ≠ some x.target := by
  obtain ⟨D₀, hs₀, _⟩ := exec_opening hinit hcreate
  obtain ⟨D, hs, _⟩ := run_deal (J := fun _ => True) (fun _ _ _ _ _ _ _ _ => trivial) hs₀
    trivial h
  exact ⟨fun i hnone hask => sellerConsent_step hs hnone hask,
    fun js hjs hstranger => strangers_pay_nothing hs hjs hstranger⟩

def demoSingle : Invocation :=
  demoCall [demoAdmin] (.initializeEscrow demoAdmin demoBuyer demoSeller demoArbiter demoToken 100
    100 50 none none none)

def demoSingleState : State := step (exec demoDeployment) State.empty demoSingle

theorem seller_consent_demo :
    SellerConsent demoSelf (demoCall [demoBuyer] .approveDelivery)
      (run demoDeployment demoSingleState
        [demoCall [demoBuyer] .fund, demoCall [demoSeller] .markDelivered])
      (run demoDeployment demoSingleState
        [demoCall [demoBuyer] .fund, demoCall [demoSeller] .markDelivered,
          demoCall [demoBuyer] .approveDelivery]) :=
  (seller_consent demoDeployment demoSingle demoSingleState
    [demoCall [demoBuyer] .fund, demoCall [demoSeller] .markDelivered] rfl rfl
    ⟨⟨rfl, trivial⟩, ⟨rfl, trivial⟩, trivial⟩).1 (demoCall [demoBuyer] .approveDelivery) rfl trivial

def demoFunded : State := run demoDeployment demoSingleState [demoCall [demoBuyer] .fund]

/-- The seller alone marks the delivery and takes the money. -/
theorem releaseMultiToken_asks_nobody :
    let t := run demoDeployment demoFunded [demoCall [demoSeller] .markDelivered]
    let u := step (exec demoDeployment) t (demoCall [demoSeller] .releaseMultiToken)
    u.transfers = demoFunded.transfers ++ [⟨.release, demoToken, demoSelf, demoSeller, 100⟩] ∧
      u.state = some .completed ∧
      ¬ SellerConsent demoSelf (demoCall [demoSeller] .releaseMultiToken) t u := by
  refine ⟨by decide +kernel, by decide +kernel, ?_⟩
  rintro ⟨new, hlog, hconsent⟩
  have hnew : new = [⟨.release, demoToken, demoSelf, demoSeller, 100⟩] :=
    List.append_cancel_left (hlog.symm.trans (by decide +kernel))
  have hpaid := hconsent ⟨.release, demoToken, demoSelf, demoSeller, 100⟩ (by simp [hnew]) rfl rfl
  rcases hpaid with ⟨⟨a, ha, hbuyer⟩, _⟩ | ⟨⟨a, ha, harbiter⟩, _⟩
  · rw [List.mem_singleton.mp ha] at hbuyer
    revert hbuyer
    decide +kernel
  · rw [List.mem_singleton.mp ha] at harbiter
    revert harbiter
    decide +kernel

end SorobanKit.Escrow
