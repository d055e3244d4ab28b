import SorobanKit.EscrowPayees

set_option autoImplicit false

/-!
# Milestones

The money of a milestone escrow is written down twice, as the stored amount and as the sum
of the unreleased milestones. Most calls change both alike. Those that change only one of
them are `release_partial`, and the pair of `update_amount` and `fund`; the condition of
this module keeps them out, and is exact for a single step.
-/
namespace SorobanKit.Escrow
open HostInvocation HostTransfers HostRuns Deal

/-- Both records agree with what the contract has gained, and nothing of it stays behind in
    the end. -/
def Scheduled (self : Address) (s : State) : Prop :=
  ∃ state amount token milestones, s.state = some state ∧ s.amount = some amount ∧
    s.tokenContract = some token ∧ s.milestones = some milestones ∧
    (state.active → gain token self s.transfers = unreleased milestones ∧
      gain token self s.transfers = amount) ∧
    (state.terminal → gain token self s.transfers = 0)

/-- An escrow is funded while its amount is the unreleased sum, and no part is released
    outside the milestones. -/
def KeepsSchedule (s : State) (i : Invocation) : Prop :=
  match i.call with
  | .fund | .fundMultiToken => s.state = some .created → s.amount = s.milestones.map unreleased
  | .releasePartial amount =>
    ¬ (s.state = some .funded ∧ 0 < amount ∧ ∃ stored, s.amount = some stored ∧ amount ≤ stored)
  | _ => True

structure OnSchedule (D : Deal) : Prop where
  schedule : ∃ S, D.schedule = some S ∧ (D.state.active → D.amount = unreleased S.list)
  basket : D.basket = none
  held : held D.token D.log = if D.state.active then D.amount else 0

theorem onSchedule_opening {call : Call} {D : Deal} (h : Opening call D)
    (hschedule : D.schedule.isSome) (hbasket : D.basket = none) : OnSchedule D := by
  obtain ⟨S, hS⟩ := Option.isSome_iff_exists.mp hschedule
  refine ⟨⟨S, hS, ?_⟩, hbasket, by rw [h.log, h.state]; rfl⟩
  rw [h.state]
  intro hactive
  cases hactive

theorem scheduled_of_onSchedule {self : Address} {s : State} {D : Deal} (hs : Represents s D)
    (hclear : Clear self D) (hD : OnSchedule D) : Scheduled self s := by
  obtain ⟨S, hS, hamount⟩ := hD.schedule
  have hheld : gain D.token self D.log = if D.state.active then D.amount else 0 :=
    (gain_eq_held hclear.log).trans hD.held
  refine ⟨D.state, D.amount, D.token, S.list, hs.state, hs.amount, hs.token,
    by rw [hs.milestones, hS]; rfl, ?_, ?_⟩
  · intro hactive
    rw [hactive] at hheld
    rw [hs.log, hheld]
    exact ⟨hamount hactive, rfl⟩
  · intro hover
    have hnot : D.state.active = false := by
      revert hover
      cases D.state <;> simp [EscrowState.terminal, EscrowState.active]
    rw [hnot] at hheld
    rw [hs.log]
    exact hheld

theorem Deal.StageBy.bounds {D : Deal} {i : Invocation} {k : ℕ} {m : Milestone} {gross : ℤ}
    (h : D.StageBy i k m gross) (hpos : 0 < m.amount) : 0 ≤ gross ∧ gross ≤ m.amount := by
  unfold StageBy at h
  cases hcall : i.call <;> simp only [hcall] at h
  case releaseMilestone => omega
  case approveMilestonePartial => omega

theorem held_stagePay {D : Deal} {self : Address} {allocated gross : ℤ} (hnonneg : 0 ≤ gross)
    (hle : gross ≤ allocated) : held D.token (D.stagePay self allocated gross) = -allocated := by
  simp only [stagePay, held_append, held_release_due, held_refund_due, ↓reduceIte]
  omega

section Moves
variable {self : Address} {i : Invocation} {s : State} {D : Deal}

theorem OnSchedule.funded (hs : Represents s D) (hD : OnSchedule D) (hkeep : KeepsSchedule s i)
    (hcall : i.call = .fund ∨ i.call = .fundMultiToken ∧ D.basket = none)
    (hstate : D.state = .created) :
    OnSchedule { D with
      state := .funded, log := D.log ++ D.depositPay self D.token D.amount } := by
  obtain ⟨S, hS, _⟩ := hD.schedule
  have hheld := hD.held
  rw [hstate] at hheld
  have hagree : D.amount = unreleased S.list := by
    have hcond : s.amount = s.milestones.map unreleased := by
      rcases hcall with hcall | ⟨hcall, _⟩ <;> simp only [KeepsSchedule, hcall] at hkeep <;>
        exact hkeep (by rw [hs.state, hstate])
    rw [hs.amount, hs.milestones, hS] at hcond
    exact Option.some.inj hcond
  refine ⟨⟨S, hS, fun _ => hagree⟩, hD.basket, ?_⟩
  simp only [held_append, held_depositPay, hheld]
  simp [EscrowState.active]

/-- The milestone leaves the schedule with what is paid for it and what is paid back. -/
theorem OnSchedule.releasedStage (hD : OnSchedule D) {S : Schedule} {k : ℕ} {m : Milestone}
    {gross : ℤ} (hcall : D.StageBy i k m gross) (hstate : D.state = .funded)
    (hS : D.schedule = some S) (hm : m ∈ S.list) (hk : S.list[k]? = some m)
    (hopen : m.released = false) :
    OnSchedule { D with
      schedule := some (S.release k m hm), amount := D.amount - m.amount,
      state := if (S.release k m hm).list.all (·.released) then .completed else .funded,
      log := D.log ++ D.stagePay self m.amount gross } := by
  obtain ⟨S', hS', hamount⟩ := hD.schedule
  have hsame : S' = S := Option.some.inj (hS'.symm.trans hS)
  subst hsame
  have hheld := hD.held
  rw [hstate] at hheld hamount
  have hagree : D.amount = unreleased S'.list := hamount rfl
  have hrest : unreleased (S'.release k m hm).list = unreleased S'.list - m.amount :=
    unreleased_set hk hopen
  obtain ⟨hlow, hhigh⟩ := hcall.bounds (S'.amount_pos m hm)
  have hnew : Escrow.held D.token (D.log ++ D.stagePay self m.amount gross) = D.amount - m.amount := by
    simp only [held_append, held_stagePay hlow hhigh, hheld, EscrowState.active, ↓reduceIte]
    omega
  refine ⟨⟨_, rfl, fun _ => by simp only; omega⟩, hD.basket, ?_⟩
  rw [hnew]
  by_cases hall : (S'.release k m hm).list.all (·.released)
  · have hzero := unreleased_eq_zero hall
    simp only [hall, ↓reduceIte, EscrowState.active, Bool.false_eq_true]
    omega
  · simp only [hall, ↓reduceIte, EscrowState.active, Bool.false_eq_true]

theorem OnSchedule.released (hD : OnSchedule D) (hstate : D.state = .delivered) :
    OnSchedule (D.close .completed (ifDue D.owed (D.releasePay self D.token D.owed))) := by
  obtain ⟨S, hS, hamount⟩ := hD.schedule
  have hheld := hD.held
  rw [hstate] at hheld hamount
  have howed : D.owed = unreleased S.list := by simp [Deal.owed, hS]
  have hnonneg := unreleased_nonneg S.amount_pos
  have hagree : D.amount = unreleased S.list := hamount rfl
  refine ⟨⟨S.releaseAll, by simp [close, hS], fun hactive => by cases hactive⟩, hD.basket, ?_⟩
  simp only [close, held_append, held_release_due, hheld, howed, EscrowState.active,
    ↓reduceIte, Bool.false_eq_true]
  omega

theorem OnSchedule.refunded (hD : OnSchedule D) {final : EscrowState} (hcall : D.RefundBy i final) :
    OnSchedule (D.close final (ifDue D.owed (D.refundPay self D.token D.owed))) := by
  obtain ⟨hactive, hfinal⟩ := hcall.closes
  obtain ⟨S, hS, hamount⟩ := hD.schedule
  have hheld := hD.held
  rw [hactive] at hheld
  have howed : D.owed = unreleased S.list := by simp [Deal.owed, hS]
  have hnonneg := unreleased_nonneg S.amount_pos
  have hagree : D.amount = unreleased S.list := hamount hactive
  refine ⟨⟨S.releaseAll, by simp [close, hS], ?_⟩, hD.basket, ?_⟩
  · simp only [close, hfinal]
    intro h
    cases h
  · simp only [close, held_append, held_refund_due, hheld, howed, hfinal, ↓reduceIte,
      Bool.false_eq_true]
    omega

theorem onSchedule_move {D' : Deal} (hs : Represents s D) (hD : OnSchedule D)
    (hkeep : KeepsSchedule s i) (h : Move self i D D') : OnSchedule D' := by
  obtain ⟨S, hS, hamount⟩ := hD.schedule
  have hheld := hD.held
  cases h with
  | idle => exact hD
  | configured | recorded => exact ⟨⟨S, hS, hamount⟩, hD.basket, hheld⟩
  | updated amount hcall hpos hstate =>
    rw [hstate] at hheld
    refine ⟨⟨S, hS, ?_⟩, hD.basket, ?_⟩
    · simp only [hstate]
      intro hactive
      cases hactive
    · simp only [hstate]
      exact hheld
  | cancelled hcall hstate =>
    rw [hstate] at hheld
    exact ⟨⟨S, hS, fun hactive => by cases hactive⟩, hD.basket, hheld⟩
  | funded hcall hauth hstate => exact hD.funded hs hkeep hcall hstate
  | fundedBasket B hcall hB | releasedBasket B hcall hB | refundedBasket B hcall hB =>
    rw [hD.basket] at hB
    cases hB
  | delivered hcall hstate =>
    rw [hstate] at hheld hamount
    exact ⟨⟨S, hS, fun _ => hamount rfl⟩, hD.basket, hheld⟩
  | disputed caller hcall hstate =>
    refine ⟨⟨S, hS, fun _ => ?_⟩, hD.basket, ?_⟩
    · rcases hstate with hstate | hstate <;> rw [hstate] at hamount <;> exact hamount rfl
    · rcases hstate with hstate | hstate <;> rw [hstate] at hheld <;> exact hheld
  | releasedPart gross hcall hauth hstate hpos hle =>
    simp only [KeepsSchedule, hcall] at hkeep
    exact absurd ⟨by rw [hs.state, hstate], hpos, D.amount, hs.amount, hle⟩ hkeep
  | releasedStage S' k m gross hcall hstate hS' hm hk hopen =>
    exact hD.releasedStage hcall hstate hS' hm hk hopen
  | released hcall hstate => exact hD.released hstate
  | refunded final hcall => exact hD.refunded hcall

end Moves

section Exact
variable {self : Address} {i : Invocation} {D D' : Deal}

theorem Move.of_fund (h : Move self i D D') (hcall : i.call = .fund ∨ i.call = .fundMultiToken)
    (hbasket : D.basket = none) :
    D' = { D with state := .funded, log := D.log ++ D.depositPay self D.token D.amount } := by
  cases h with
  | funded => rfl
  | _ => rcases hcall with hcall | hcall <;> simp_all [Call.quiet, StageBy, RefundBy]

theorem Move.of_releasePartial (h : Move self i D D') {amount : ℤ}
    (hcall : i.call = .releasePartial amount) :
    D.state = .funded ∧ 0 < amount ∧
      D' = { D with
        amount := D.amount - amount, log := D.log ++ D.releasePay self D.token amount } := by
  cases h with
  | releasedPart gross hcall' hauth hstate hpos hle =>
    rw [hcall] at hcall'
    cases hcall'
    exact ⟨hstate, hpos, rfl⟩
  | _ => simp_all [Call.quiet, StageBy, RefundBy]

/-- From a deal on schedule the condition is exact: a returning call to outside payees leaves
    both records in agreement if and only if it meets it. -/
theorem scheduled_step_iff {d : Deployment} {s t : State} (hs : Represents s D)
    (hclear : Clear d.contractAddress D) (hD : OnSchedule D) (hnone : NoSettle d s i)
    (hout : PaysOutside d.contractAddress s i) (h : exec d i s = .ok t) :
    Scheduled d.contractAddress t ↔ KeepsSchedule s i := by
  obtain ⟨D', ht, hmove⟩ := exec_move hs hnone h
  refine ⟨?_, fun hkeep => scheduled_of_onSchedule ht (clear_move hs hclear hout hmove)
    (onSchedule_move hs hD hkeep hmove)⟩
  rintro ⟨state, amount, token, milestones, hstate, hamount, htoken, hmilestones, hactive, _⟩
  obtain ⟨S, hS, hagree⟩ := hD.schedule
  have hheld := hD.held
  rw [ht.state, Option.some.injEq] at hstate
  rw [ht.amount, Option.some.injEq] at hamount
  rw [ht.token, Option.some.injEq] at htoken
  rw [ht.milestones] at hmilestones
  subst hstate hamount htoken
  have hfund : i.call = .fund ∨ i.call = .fundMultiToken →
      s.state = some .created → s.amount = s.milestones.map unreleased := by
    intro hcall _
    have hD' := hmove.of_fund hcall hD.basket
    subst hD'
    obtain ⟨hsum, heq⟩ := hactive rfl
    rw [hs.milestones, hmilestones, hs.amount, Option.map_some, ← hsum, heq]
  unfold KeepsSchedule
  cases hcall : i.call <;> simp only
  case fund => exact hfund (.inl hcall)
  case fundMultiToken => exact hfund (.inr hcall)
  case releasePartial part =>
    rintro ⟨_, hpos, _⟩
    obtain ⟨hfunded, _, hD'⟩ := hmove.of_releasePartial hcall
    subst hD'
    have hlist : milestones = S.list := by
      rw [hS] at hmilestones
      exact (Option.some.inj hmilestones).symm
    obtain ⟨hsum, heq⟩ := hactive (by simp only [hfunded]; rfl)
    rw [hfunded] at hagree
    have hbefore : D.amount = unreleased S.list := hagree rfl
    rw [hlist] at hsum
    have hafter : D.amount - part = unreleased S.list := heq.symm.trans hsum
    omega

end Exact

/-- In every run that meets the condition, the money in the contract, the stored amount and the
    unreleased milestones agree, and an escrow that is over has paid out everything. -/
theorem milestone_accounting (d : Deployment) (i₀ : Invocation) (s₀ : State)
    (is : List Invocation) (admin buyer seller arbiter token : Address)
    (milestones : List Milestone) (deadline timeout : ℕ) (hash : Option Hash)
    (hinit : i₀.call = .initializeWithMilestones admin buyer seller arbiter token milestones
      deadline timeout hash)
    (hcreate : exec d i₀ State.empty = .ok s₀)
    (h : Along (exec d) (fun s i => NoSettle d s i ∧ KeepsSchedule s i ∧
      PaysOutside d.contractAddress s i) s₀ is) :
    Scheduled d.contractAddress (run d s₀ is) := by
  obtain ⟨D₀, hs₀, hopen⟩ := exec_opening (by rw [hinit]; rfl) hcreate
  rw [hinit] at hopen
  have hschedule : D₀.schedule.isSome := by
    have hlist := hopen.schedule
    simp only [Option.map_eq_some_iff] at hlist
    obtain ⟨S, hS, _⟩ := hlist
    rw [hS]
    rfl
  obtain ⟨D, hs, hclear, hD⟩ := run_deal (J := fun D => Clear d.contractAddress D ∧ OnSchedule D)
    (fun s i D D' hs hD hkeep hmove =>
      ⟨clear_move hs hD.1 hkeep.2 hmove, onSchedule_move hs hD.2 hkeep.1 hmove⟩) hs₀
    ⟨clear_opening hopen, onSchedule_opening hopen hschedule hopen.basket⟩ h
  exact scheduled_of_onSchedule hs hclear hD

def demoStagesRun : List Invocation :=
  [demoCall [demoBuyer] .fund, demoCall [demoBuyer] (.approveMilestonePartial 0 45),
    demoCall [demoSeller] .markDelivered, demoCall [demoBuyer] .approveDelivery]

theorem milestone_accounting_demo :
    (run demoDeployment demoStagesState demoStagesRun).state = some .completed ∧
      Scheduled demoSelf (run demoDeployment demoStagesState demoStagesRun) := by
  have hpayees : PayeesOutside demoSelf demoStagesState := ⟨by decide +kernel, by decide +kernel⟩
  exact ⟨by decide +kernel, milestone_accounting demoDeployment demoStages demoStagesState
    demoStagesRun _ _ _ _ _ _ _ _ _ rfl rfl
    ⟨⟨rfl, fun _ => rfl, fun _ => by decide +kernel⟩, ⟨rfl, trivial, fun _ => hpayees⟩,
      ⟨rfl, trivial, trivial⟩, ⟨rfl, trivial, fun _ => hpayees⟩, trivial⟩⟩

def demoOwnTreasury : List Invocation :=
  [demoCall [demoBuyer] .fund, demoCall [demoAdmin] (.setFeeConfig 250 demoSelf),
    demoCall [demoSeller] .markDelivered, demoCall [demoBuyer] .approveDelivery]

/-- The amount is lowered to 50 before funding, and 50 are held for milestones of 100. In the
    second run the fee is paid to the escrow itself and stays there. -/
theorem updateAmount_breaks_schedule :
    ¬ Scheduled demoSelf (run demoDeployment demoStagesState
      [demoCall [demoBuyer] (.updateAmount 50), demoCall [demoBuyer] .fund]) ∧
    ¬ Scheduled demoSelf (run demoDeployment demoStagesState demoOwnTreasury) := by
  constructor
  · rintro ⟨state, amount, token, milestones, hstate, _, htoken, hmilestones, hactive, _⟩
    have hstate' : state = .funded := Option.some.inj (hstate.symm.trans rfl)
    have htoken' : token = demoToken := Option.some.inj (htoken.symm.trans rfl)
    have hmilestones' : milestones = demoMilestones :=
      Option.some.inj (hmilestones.symm.trans rfl)
    subst hstate' htoken' hmilestones'
    have hsum := (hactive rfl).1
    revert hsum
    decide +kernel
  · rintro ⟨state, amount, token, milestones, hstate, _, htoken, _, _, hover⟩
    have hstate' : state = .completed := Option.some.inj (hstate.symm.trans rfl)
    have htoken' : token = demoToken := Option.some.inj (htoken.symm.trans rfl)
    subst hstate' htoken'
    have hleft := hover rfl
    revert hleft
    decide +kernel

end SorobanKit.Escrow
