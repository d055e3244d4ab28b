import SorobanKit.EscrowRefinement

set_option autoImplicit false

/-!
# New escrows and their runs

Each variant of `initialize` opens a deal of its own kind. From there the runs of the
storage are followed by the runs of the deal, which gives one invariant rule for both.
-/
namespace SorobanKit.Escrow
open HostInteger HostInvocation HostTransfers HostRuns Deal

def Call.isInitialize : Call → Bool
  | .initializeEscrow .. | .initializeWithAbandonmentBuffer .. | .initializeWithArbiters ..
  | .initializeWithMilestones .. | .initializeWithTokens .. => true
  | _ => false

/-- What a deal is right after the initialization `call`. -/
structure Opening (call : Call) (D : Deal) : Prop where
  state : D.state = .created
  log : D.log = []
  approvals : D.approvals = []
  amount_pos : 0 < D.amount
  schedule : match call with
    | .initializeWithMilestones _ _ _ _ _ milestones _ _ _ =>
      D.schedule.map Schedule.list = some milestones
    | _ => D.schedule = none
  basket : match call with
    | .initializeWithTokens _ _ _ _ tokenContracts tokenAmounts _ _ _ =>
      D.basket.map Basket.items = some (tokenContracts.zip tokenAmounts)
    | _ => D.basket = none
  committee : match call with
    | .initializeWithArbiters _ _ _ arbiters _ _ _ requiredSignatures _ _ =>
      D.committee.map Committee.members = some arbiters ∧ D.required = requiredSignatures
    | _ => D.committee = none

theorem checkArbiters_nodup {buyer seller : Address} {arbiters : List Address}
    (h : checkArbiters buyer seller arbiters = .ok ()) : arbiters.Nodup := by
  induction arbiters with
  | nil => simp
  | cons a rest ih =>
    simp only [checkArbiters, bind_eq_ok, rejectIf_eq_ok] at h
    obtain ⟨_, _, _, hnew, h⟩ := h
    exact List.nodup_cons.mpr ⟨hnew, ih h⟩

theorem validatePartiesMulti_ok {buyer seller : Address} {arbiters : List Address} {required : ℕ}
    (h : validatePartiesMulti buyer seller arbiters required = .ok ()) :
    0 < required ∧ required ≤ arbiters.length ∧ arbiters.Nodup := by
  simp only [validatePartiesMulti, bind_eq_ok, rejectIf_eq_ok] at h
  obtain ⟨_, hsize, h⟩ := h
  push Not at hsize
  exact ⟨by omega, hsize.2.2, checkArbiters_nodup h⟩

theorem milestoneTotal_foldlM {milestones : List Milestone} {start total : ℤ}
    (h : milestones.foldlM (fun total (m : Milestone) => do
      rejectIf (m.amount ≤ 0) EscrowError.invalidAmount
      okOr (checkedAdd total m.amount) .insufficientFunds) start = .ok total) :
    ∀ m ∈ milestones, 0 < m.amount := by
  induction milestones generalizing start with
  | nil => simp
  | cons x rest ih =>
    simp only [List.foldlM_cons, bind_eq_ok, rejectIf_eq_ok] at h
    obtain ⟨_, ⟨_, hx, _⟩, h⟩ := h
    intro m hm
    rcases List.mem_cons.mp hm with rfl | hm
    · omega
    · exact ih h m hm

section Creation
variable {env : Env} {s : State} {admin buyer seller arbiter token : Address} {amount : ℤ}
  {deadline timeout : ℕ} {hash : Option Hash}

theorem initializeEscrow_opening {grace arbiterFee : Option ℕ}
    (h : initializeEscrow env admin buyer seller arbiter token amount deadline timeout grace hash
      arbiterFee State.empty = .ok s) :
    ∃ D, Represents s D ∧ Opening (.initializeEscrow admin buyer seller arbiter token amount
      deadline timeout grace hash arbiterFee) D := by
  simp only [initializeEscrow, validateAmount, bind_eq_ok, rejectIf_eq_ok, pure_eq_ok] at h
  obtain ⟨_, _, _, hpos, _, _, _, _, _, _, _, _, rfl⟩ := h
  refine ⟨⟨buyer, seller, arbiter, token, amount, .created, none, none, none, [], none, []⟩, ?_, ?_⟩
  · constructor <;> rfl
  · exact ⟨rfl, rfl, rfl, by simp only; omega, rfl, rfl, rfl⟩

theorem initializeWithAbandonmentBuffer_opening {buffer : ℕ} {grace : Option ℕ}
    (h : initializeWithAbandonmentBuffer env admin buyer seller arbiter token amount deadline
      timeout buffer grace hash State.empty = .ok s) :
    ∃ D, Represents s D ∧ Opening (.initializeWithAbandonmentBuffer admin buyer seller arbiter
      token amount deadline timeout buffer grace hash) D := by
  simp only [initializeWithAbandonmentBuffer, validateAmount, bind_eq_ok, rejectIf_eq_ok,
    pure_eq_ok] at h
  obtain ⟨_, _, _, hpos, _, _, _, _, _, _, rfl⟩ := h
  refine ⟨⟨buyer, seller, arbiter, token, amount, .created, none, none, none, [], none, []⟩, ?_, ?_⟩
  · constructor <;> rfl
  · exact ⟨rfl, rfl, rfl, by simp only; omega, rfl, rfl, rfl⟩

theorem initializeWithArbiters_opening {arbiters : List Address} {required : ℕ}
    (h : initializeWithArbiters env admin buyer seller arbiters token amount deadline required
      timeout hash State.empty = .ok s) :
    ∃ D, Represents s D ∧ Opening (.initializeWithArbiters admin buyer seller arbiters token
      amount deadline required timeout hash) D := by
  simp only [initializeWithArbiters, validateAmount, bind_eq_ok, rejectIf_eq_ok, unwrap_eq_ok,
    pure_eq_ok] at h
  obtain ⟨_, _, _, hpos, _, hparties, _, _, _, _, primary, _, rfl⟩ := h
  obtain ⟨hrequired, hle, hnodup⟩ := validatePartiesMulti_ok hparties
  refine ⟨⟨buyer, seller, primary, token, amount, .created, none, none,
    some ⟨arbiters, required, hrequired, hle, hnodup⟩, [], none, []⟩, ?_, ?_⟩
  · constructor <;> rfl
  · exact ⟨rfl, rfl, rfl, by simp only; omega, rfl, rfl, rfl, rfl⟩

theorem initializeWithMilestones_opening {milestones : List Milestone}
    (h : initializeWithMilestones env admin buyer seller arbiter token milestones deadline
      timeout hash State.empty = .ok s) :
    ∃ D, Represents s D ∧ Opening (.initializeWithMilestones admin buyer seller arbiter token
      milestones deadline timeout hash) D := by
  simp only [initializeWithMilestones, validateAmount, bind_eq_ok, rejectIf_eq_ok,
    pure_eq_ok] at h
  obtain ⟨_, _, _, _, total, htotal, _, hpos, _, _, _, _, _, _, rfl⟩ := h
  refine ⟨⟨buyer, seller, arbiter, token, total, .created,
    some ⟨milestones, milestoneTotal_foldlM htotal⟩, none, none, [], none, []⟩, ?_, ?_⟩
  · constructor <;> rfl
  · exact ⟨rfl, rfl, rfl, by simp only; omega, rfl, rfl, rfl⟩

theorem initializeWithTokens_opening {tokenContracts : List Address} {tokenAmounts : List ℤ}
    (h : initializeWithTokens env admin buyer seller arbiter tokenContracts tokenAmounts deadline
      timeout hash State.empty = .ok s) :
    ∃ D, Represents s D ∧ Opening (.initializeWithTokens admin buyer seller arbiter
      tokenContracts tokenAmounts deadline timeout hash) D := by
  simp only [initializeWithTokens, bind_eq_ok, rejectIf_eq_ok, not_not, unwrap_eq_ok,
    pure_eq_ok] at h
  obtain ⟨_, _, _, _, _, hlength, _, hitems, _, _, _, _, lead, _, leadAmount, hlead, rfl⟩ := h
  have hpos : ∀ x ∈ tokenContracts.zip tokenAmounts, 0 < x.2 := by
    intro x hx
    have hcheck := forM_ok hitems x hx
    simp only [bind_eq_ok, rejectIf_eq_ok] at hcheck
    obtain ⟨_, hamount, _⟩ := hcheck
    omega
  refine ⟨⟨buyer, seller, arbiter, lead, leadAmount, .created, none,
    some ⟨tokenContracts.zip tokenAmounts, hpos⟩, none, [], none, []⟩, ?_, ?_⟩
  · have hfst : (tokenContracts.zip tokenAmounts).map Prod.fst = tokenContracts :=
      List.map_fst_zip (by omega)
    have hsnd : (tokenContracts.zip tokenAmounts).map Prod.snd = tokenAmounts :=
      List.map_snd_zip (by omega)
    constructor
    case tokenContracts => simp only [Option.map_some, hfst]
    case tokenAmounts => simp only [Option.map_some, hsnd]
    all_goals rfl
  · have hmem : leadAmount ∈ tokenAmounts := List.mem_of_head? hlead
    have hsnd : (tokenContracts.zip tokenAmounts).map Prod.snd = tokenAmounts :=
      List.map_snd_zip (by omega)
    rw [← hsnd] at hmem
    obtain ⟨x, hx, rfl⟩ := List.mem_map.mp hmem
    exact ⟨rfl, rfl, rfl, hpos x hx, rfl, rfl, rfl⟩

end Creation

theorem exec_opening {d : Deployment} {i : Invocation} {s : State}
    (hinit : i.call.isInitialize) (h : exec d i State.empty = .ok s) :
    ∃ D, Represents s D ∧ Opening i.call D := by
  unfold exec at h
  cases hcall : i.call <;> simp only [hcall] at h
  case initializeEscrow => exact initializeEscrow_opening h
  case initializeWithAbandonmentBuffer => exact initializeWithAbandonmentBuffer_opening h
  case initializeWithArbiters => exact initializeWithArbiters_opening h
  case initializeWithMilestones => exact initializeWithMilestones_opening h
  case initializeWithTokens => exact initializeWithTokens_opening h
  all_goals
    rw [hcall] at hinit
    exact absurd hinit (by simp [Call.isInitialize])

/-- The calls of the run never reach `settle`. -/
def NoSettle (d : Deployment) (s : State) (i : Invocation) : Prop := settleVerdict d i s = none

/-- The invariant rule for deals, over runs whose calls all meet `P` and never settle. -/
theorem run_deal {d : Deployment} {J : Deal → Prop} {P : State → Invocation → Prop}
    (hstep : ∀ s i D D', Represents s D → J D → P s i → Move d.contractAddress i D D' → J D')
    {s : State} {is : List Invocation} {D : Deal} (hs : Represents s D) (hD : J D)
    (h : Along (exec d) (fun s i => NoSettle d s i ∧ P s i) s is) :
    ∃ D', Represents (run d s is) D' ∧ J D' := by
  refine run_invariant_along (I := fun s => ∃ D, Represents s D ∧ J D) ?_ ⟨D, hs, hD⟩ h
  rintro s i t ⟨D, hs, hD⟩ ⟨hnone, hP⟩ ht
  obtain ⟨D', ht', hmove⟩ := exec_move hs hnone ht
  exact ⟨D', ht', hstep s i D D' hs hD hP hmove⟩

end SorobanKit.Escrow
