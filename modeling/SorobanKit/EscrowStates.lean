import SorobanKit.EscrowCreation

set_option autoImplicit false

/-!
# The life cycle of an escrow

Which states follow which, what takes a funded escrow straight to completion, and that
nothing moves any more once the escrow is over.
-/
namespace SorobanKit.Escrow
open HostInvocation HostTransfers HostRuns Deal

/-- The edges of the life cycle. -/
def EscrowState.next : EscrowState → EscrowState → Bool
  | .created, .funded | .created, .cancelled => true
  | .funded, .delivered | .funded, .disputed | .funded, .completed | .funded, .refunded
  | .funded, .expiredRefunded | .funded, .cancelled => true
  | .delivered, .completed | .delivered, .disputed | .delivered, .cancelled => true
  | .disputed, .refunded => true
  | _, _ => false

/-- The milestone a call releases. -/
def Call.milestoneIndex : Call → Option ℕ
  | .releaseMilestone _ milestoneIndex => some milestoneIndex
  | .approveMilestonePartial milestoneId _ => some milestoneId
  | _ => none

/-- The call releases a milestone and every other one has been released before. -/
def LastMilestone (call : Call) (milestones : Option (List Milestone)) : Prop :=
  ∃ ms k m, milestones = some ms ∧ call.milestoneIndex = some k ∧ ms[k]? = some m ∧
    m.released = false ∧ ∀ j x, j ≠ k → ms[j]? = some x → x.released

/-- What one step of the life cycle may do. -/
def Advances (i : Invocation) (s t : State) : Prop :=
  ∃ before after, s.state = some before ∧ t.state = some after ∧
    (after = before ∨ before.next after) ∧
    (before = .funded → after = .completed → LastMilestone i.call s.milestones) ∧
    (before.terminal → after = before ∧ t.amount = s.amount ∧ t.transfers = s.transfers)

section Steps
variable {self : Address} {i : Invocation} {D D' : Deal}

theorem Deal.RefundBy.next {final : EscrowState} (h : D.RefundBy i final) : D.state.next final := by
  unfold RefundBy at h
  cases hcall : i.call <;> simp only [hcall] at h
  case mutualCancel =>
    obtain ⟨_, hstate | hstate, rfl⟩ := h <;> rw [hstate] <;> rfl
  all_goals
    obtain ⟨_, hstate, rfl⟩ := h
    rw [hstate]
    rfl

theorem Deal.RefundBy.final_terminal {final : EscrowState} (h : D.RefundBy i final) :
    final.terminal := by
  unfold RefundBy at h
  cases hcall : i.call <;> simp only [hcall] at h <;> rw [h.2.2] <;> rfl

theorem Move.next (h : Move self i D D') : D'.state = D.state ∨ D.state.next D'.state := by
  cases h with
  | idle | configured | recorded | updated | releasedPart => exact .inl rfl
  | disputed caller hcall hstate =>
    rcases hstate with hstate | hstate <;> rw [hstate] <;> exact .inr rfl
  | releasedStage S k m gross hcall hstate =>
    simp only [hstate]
    split
    · exact .inr rfl
    · exact .inl rfl
  | refunded final hcall => exact .inr hcall.next
  | cancelled hcall hstate | funded hcall hauth hstate | delivered hcall hstate
  | fundedBasket B hcall hB hauth hstate | released hcall hstate
  | releasedBasket B hcall hB hstate | refundedBasket B hcall hB hstate =>
    rw [hstate]
    exact .inr rfl

/-- A deal that is over only changes its fee configuration. -/
theorem Move.terminal (h : Move self i D D') (hover : D.state.terminal) :
    D'.state = D.state ∧ D'.amount = D.amount ∧ D'.log = D.log := by
  cases h with
  | idle | configured | recorded => exact ⟨rfl, rfl, rfl⟩
  | disputed caller hcall hstate =>
    rcases hstate with hstate | hstate <;> rw [hstate] at hover <;> cases hover
  | refunded final hcall =>
    have hnext := hcall.next
    revert hnext hover
    cases D.state <;> simp [EscrowState.next, EscrowState.terminal]
  | updated amount hcall hpos hstate | cancelled hcall hstate | funded hcall hauth hstate
  | delivered hcall hstate | fundedBasket B hcall hB hauth hstate
  | releasedPart gross hcall hauth hstate | releasedStage S k m gross hcall hstate
  | released hcall hstate | releasedBasket B hcall hB hstate
  | refundedBasket B hcall hB hstate =>
    rw [hstate] at hover
    cases hover

theorem Deal.StageBy.milestoneIndex {k : ℕ} {m : Milestone} {gross : ℤ} (h : D.StageBy i k m gross) :
    i.call.milestoneIndex = some k := by
  unfold StageBy at h
  cases hcall : i.call <;> simp only [hcall] at h
  case releaseMilestone => exact congrArg some h.2.2.1
  case approveMilestonePartial => exact congrArg some h.2.1

theorem Move.lastMilestone (h : Move self i D D') (hbefore : D.state = .funded)
    (hafter : D'.state = .completed) :
    LastMilestone i.call (D.schedule.map Schedule.list) := by
  cases h with
  | releasedStage S k m gross hcall hstate hS hm hk hopen =>
    simp only [ite_eq_left_iff, reduceCtorEq, imp_false, not_not] at hafter
    refine ⟨S.list, k, m, by rw [hS]; rfl, hcall.milestoneIndex, hk, hopen, ?_⟩
    intro j x hj hx
    -- the other entries are those of the old list
    have hset : (S.release k m hm).list[j]? = some x := by
      simp only [Schedule.release, List.getElem?_set, hj.symm, ↓reduceIte, hx]
    exact List.all_eq_true.mp hafter x (List.mem_of_getElem? hset)
  | refunded final hcall =>
    have hfinal : final = .completed := hafter
    unfold RefundBy at hcall
    cases hc : i.call <;> simp only [hc, hfinal] at hcall <;>
      simp only [reduceCtorEq, and_false] at hcall
  | idle | configured | recorded | updated | releasedPart =>
    rw [hbefore] at hafter
    cases hafter
  | cancelled | funded | fundedBasket | delivered | disputed | refundedBasket => cases hafter
  | released hcall hstate | releasedBasket B hcall hB hstate =>
    rw [hbefore] at hstate
    cases hstate

end Steps

theorem advances_of_move {d : Deployment} {i : Invocation} {s t : State} {D : Deal}
    (hs : Represents s D) (ht : Refines d i D t) : Advances i s t := by
  obtain ⟨D', hD', hmove⟩ := ht
  refine ⟨D.state, D'.state, hs.state, hD'.state, hmove.next, ?_, ?_⟩
  · intro hbefore hafter
    rw [hs.milestones]
    exact hmove.lastMilestone hbefore hafter
  · intro hover
    obtain ⟨hstate, hamount, hlog⟩ := hmove.terminal hover
    refine ⟨hstate, ?_, ?_⟩
    · rw [hs.amount, hD'.amount, hamount]
    · rw [hs.log, hD'.log, hlog]

theorem advances_step {d : Deployment} {i : Invocation} {s : State} {D : Deal}
    (hs : Represents s D) (hnone : NoSettle d s i) : Advances i s (step (exec d) s i) := by
  rcases step_cases (exec d) s i with hok | hid
  · exact advances_of_move hs (exec_move hs hnone hok)
  · rw [hid]
    refine ⟨D.state, D.state, hs.state, hs.state, .inl rfl, ?_, fun _ => ⟨rfl, rfl, rfl⟩⟩
    intro hbefore hafter
    rw [hbefore] at hafter
    cases hafter

/-- Created once, an escrow moves only along the edges of the life cycle, whatever the
    calls, their order and their outcome. -/
theorem lifecycle (d : Deployment) (i₀ : Invocation) (s₀ : State) (is : List Invocation)
    (hinit : i₀.call.isInitialize) (hcreate : exec d i₀ State.empty = .ok s₀)
    (h : Along (exec d) (NoSettle d) s₀ is) :
    s₀.state = some .created ∧
      ∀ i, NoSettle d (run d s₀ is) i →
        Advances i (run d s₀ is) (step (exec d) (run d s₀ is) i) := by
  obtain ⟨D₀, hs₀, hopen⟩ := exec_opening hinit hcreate
  refine ⟨by rw [hs₀.state, hopen.state], ?_⟩
  obtain ⟨D, hs, _⟩ := run_deal (J := fun _ => True) (P := fun _ _ => True)
    (fun _ _ _ _ _ _ _ _ => trivial) hs₀ trivial (h.mono fun _ _ hi => ⟨hi, trivial⟩)
  exact fun i hi => advances_step hs hi

def demoSelf : Address := ⟨100⟩
def demoAdmin : Address := ⟨0⟩
def demoBuyer : Address := ⟨1⟩
def demoSeller : Address := ⟨2⟩
def demoArbiter : Address := ⟨3⟩
def demoToken : Address := ⟨10⟩

def demoPay (purpose : Purpose) (target : Address) (env : Env) (amount : ℤ) (s : State) :
    Result EscrowError State :=
  callTransfer env ⟨purpose, demoToken, demoSelf, target, amount⟩ s

/-- Payouts of a settlement as plain transfers that close the escrow. -/
def demoSettlement : Settlement where
  transferFunds env target amount s := demoPay .fee target env amount s
  releaseToSellerAmount env amount s :=
    demoPay .release demoSeller env amount { s with state := some .completed, amount := some 0 }
  refundToBuyerAmount env amount s :=
    demoPay .refund demoBuyer env amount { s with state := some .refunded, amount := some 0 }

def demoDeployment : Deployment := ⟨demoSelf, true, demoSettlement⟩

def demoCall (auths : List Address) (call : Call) : Invocation where
  sequence := 5
  auths := auths
  tokens := ⟨fun _ _ => 1000, fun _ _ => true, fun _ => true⟩
  call := call

def demoMilestones : List Milestone := [⟨"design", 60, false⟩, ⟨"build", 40, false⟩]

def demoStages : Invocation :=
  demoCall [demoAdmin] (.initializeWithMilestones demoAdmin demoBuyer demoSeller demoArbiter
    demoToken demoMilestones 100 50 none)

def demoStagesState : State := step (exec demoDeployment) State.empty demoStages

theorem lifecycle_demo :
    Advances (demoCall [demoArbiter] (.releaseMilestone demoArbiter 1))
      (run demoDeployment demoStagesState
        [demoCall [demoBuyer] .fund, demoCall [demoBuyer] (.releaseMilestone demoBuyer 0)])
      (run demoDeployment demoStagesState
        [demoCall [demoBuyer] .fund, demoCall [demoBuyer] (.releaseMilestone demoBuyer 0),
          demoCall [demoArbiter] (.releaseMilestone demoArbiter 1)]) :=
  (lifecycle demoDeployment demoStages demoStagesState
    [demoCall [demoBuyer] .fund, demoCall [demoBuyer] (.releaseMilestone demoBuyer 0)]
    rfl rfl ⟨rfl, rfl, trivial⟩).2 (demoCall [demoArbiter] (.releaseMilestone demoArbiter 1)) rfl

end SorobanKit.Escrow
