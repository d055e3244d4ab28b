import SorobanKit.EscrowStates

set_option autoImplicit false

/-!
# The committee of arbiters

Approvals of a dispute are collected in one list for both verdicts. The list never holds a
quorum: the approval that would complete one settles, or is rejected and rolled back. So
only a unanimous quorum settles, and a dissenting approval among the first ones blocks the
dispute for good.
-/
namespace SorobanKit.Escrow
open HostInvocation HostTransfers HostRuns Deal

/-- A payout writes the state, the amount, the milestones' flags, the lock and the log. -/
def KeepsTerms (s t : State) : Prop :=
  ∃ (state : Option EscrowState) (amount : Option ℤ) (flag : Milestone → Bool)
    (locked : Option Bool) (transfers : List (Transfer Purpose)),
    (s.state.isSome → state.isSome) ∧ (s.amount.isSome → amount.isSome) ∧
    t = { s with
      state := state, amount := amount,
      milestones := s.milestones.map (·.map fun m => { m with released := flag m }),
      locked := locked, transfers := transfers }

structure Settlement.KeepsTerms (S : Settlement) : Prop where
  transferFunds : ∀ env target amount s t,
    S.transferFunds env target amount s = .ok t → Escrow.KeepsTerms s t
  releaseToSellerAmount : ∀ env amount s t,
    S.releaseToSellerAmount env amount s = .ok t → Escrow.KeepsTerms s t
  refundToBuyerAmount : ∀ env amount s t,
    S.refundToBuyerAmount env amount s = .ok t → Escrow.KeepsTerms s t

def Schedule.flagged (S : Schedule) (flag : Milestone → Bool) : Schedule where
  list := S.list.map fun m => { m with released := flag m }
  amount_pos := by
    intro m hm
    obtain ⟨x, hx, rfl⟩ := List.mem_map.mp hm
    exact S.amount_pos x hx

/-- Nobody's vote is touched by a payout. -/
theorem KeepsTerms.represents {s t : State} {D : Deal} (h : KeepsTerms s t)
    (hs : Represents s D) :
    ∃ D', Represents t D' ∧ D'.committee = D.committee ∧ D'.approvals = D.approvals := by
  obtain ⟨state, amount, flag, locked, transfers, hstate, hamount, rfl⟩ := h
  obtain ⟨state, rfl⟩ := Option.isSome_iff_exists.mp (hstate (by rw [hs.state]; rfl))
  obtain ⟨amount, rfl⟩ := Option.isSome_iff_exists.mp (hamount (by rw [hs.amount]; rfl))
  refine ⟨{ D with
    state := state, amount := amount, schedule := D.schedule.map (·.flagged flag),
    log := transfers }, { hs with state := rfl, amount := rfl, log := rfl, milestones := ?_ },
    rfl, rfl⟩
  simp only [hs.milestones, Option.map_map]
  rfl

section Settling
variable {d : Deployment} {env : Env} {i : Invocation} {s t : State} {D : Deal}

theorem payArbiterFee_ok {arbiter : Address} {disputed : ℤ} {p : ℤ × State}
    (hkeep : d.settlement.KeepsTerms) (hs : Represents s D)
    (h : payArbiterFee d env arbiter disputed s = .ok p) :
    ∃ D', Represents p.2 D' ∧ D'.committee = D.committee ∧ D'.approvals = D.approvals := by
  unfold payArbiterFee at h
  by_cases hfee : 0 < computeArbiterFee disputed s
  · simp only [hfee, ↓reduceIte, bind_eq_ok, pure_eq_ok] at h
    obtain ⟨u, hpay, rfl⟩ := h
    exact (hkeep.transferFunds _ _ _ _ _ hpay).represents hs
  · simp only [hfee, ↓reduceIte, bind_eq_ok, pure_eq_ok, exists_eq_left'] at h
    rw [← h]
    exact ⟨D, hs, rfl, rfl⟩

theorem settle_ok {arbiter : Address} {verdict : Bool} (hkeep : d.settlement.KeepsTerms)
    (hs : Represents s D) (h : settle d env arbiter verdict s = .ok t) :
    ∃ D', Represents t D' ∧ D'.committee = D.committee ∧ D'.approvals = D.approvals := by
  simp only [settle, bind_eq_ok] at h
  obtain ⟨disputed, _, ⟨remaining, u⟩, hfee, h⟩ := h
  obtain ⟨D₁, hu, hcommittee, happrovals⟩ := payArbiterFee_ok hkeep hs hfee
  rw [← hcommittee, ← happrovals]
  cases verdict with
  | true =>
    simp only [↓reduceIte] at h
    have hdelivered : Represents { u with state := some .delivered }
        { D₁ with state := .delivered } := { hu with state := rfl }
    obtain ⟨D', ht, hc, ha⟩ := (hkeep.releaseToSellerAmount _ _ _ _ h).represents hdelivered
    exact ⟨D', ht, hc, ha⟩
  | false =>
    simp only [Bool.false_eq_true, ↓reduceIte] at h
    have hfunded : Represents { u with state := some .funded }
        { D₁ with state := .funded } := { hu with state := rfl }
    obtain ⟨D', ht, hc, ha⟩ := (hkeep.refundToBuyerAmount _ _ _ _ h).represents hfunded
    exact ⟨D', ht, hc, ha⟩

theorem settleVerdict_some {C : Committee} {verdict : Bool} (hs : Represents s D)
    (hC : D.committee = some C) (hlt : D.approvals.length < C.required)
    (h : settleVerdict d i s = some verdict) :
    ∃ arbiter, i.call = .approveDispute arbiter verdict ∧ arbiter ∈ C.members ∧
      arbiter ∈ i.auths ∧ (∀ a ∈ D.approvals, a.1 ≠ arbiter) ∧
      C.required ≤ D.approvals.length + 1 ∧ (∀ a ∈ D.approvals, a.2 = verdict) ∧
      exec d i s = settle d i.toEnv arbiter verdict { s with disputeApprovals := none } := by
  unfold settleVerdict at h
  cases hcall : i.call <;> simp only [hcall] at h
  case approveDispute arbiter v =>
    cases hdecision : approveDecision d i.toEnv arbiter v s with
    | error e => simp [hdecision] at h
    | ok decision =>
      obtain ⟨_, C', hC', hmem, hauth, hcases⟩ := approveDecision_ok hs hdecision
      have hsame : C = C' := Option.some.inj (hC.symm.trans hC')
      subst hsame
      rcases hcases with rfl | ⟨hnew, ⟨_, rfl⟩ | ⟨hfull, hagree, rfl⟩⟩
      · simp [hdecision] at h
      · simp [hdecision] at h
      · simp only [hdecision, Option.some.injEq] at h
        subst h
        refine ⟨arbiter, rfl, hmem, hauth, hnew, hfull, hagree, ?_⟩
        simp [exec, hcall, approveDispute, hdecision, bind, Except.bind, Decision.finish]
  case resolveDispute caller v =>
    cases hdecision : resolveDecision i.toEnv caller v s with
    | error e => simp [hdecision] at h
    | ok decision =>
      have hfull := (resolveDecision_ok hs hdecision).2 C hC
      omega
  all_goals simp at h

end Settling

def Call.isRaiseDispute : Call → Bool
  | .raiseDispute _ => true
  | _ => false

/-- The invocations that returned since the dispute was raised. -/
def noteDispute (i : Invocation) (history : List Invocation) : List Invocation :=
  if i.call.isRaiseDispute then [] else history ++ [i]

def disputeHistory (d : Deployment) (s : State) (is : List Invocation) : List Invocation :=
  (HostRuns.run (noting (exec d) noteDispute) (s, []) is).2

/-- `arbiter` authorized an approval of `verdict` among these invocations. -/
def Approved (arbiter : Address) (verdict : Bool) (history : List Invocation) : Prop :=
  ∃ j ∈ history, j.call = .approveDispute arbiter verdict ∧ arbiter ∈ j.auths

structure QuorumOpen (C : Committee) (D : Deal) (history : List Invocation) : Prop where
  committee : D.committee = some C
  nodup : (D.approvals.map Prod.fst).Nodup
  members : ∀ a ∈ D.approvals, a.1 ∈ C.members
  short : D.approvals.length < C.required
  cast : ∀ a ∈ D.approvals, Approved a.1 a.2 history
  before : D.state = .created ∨ D.state = .funded ∨ D.state = .delivered → D.approvals = []

section Safety
variable {self : Address} {i : Invocation} {D D' : Deal} {C : Committee}
  {history : List Invocation}

theorem Move.of_raiseDispute (h : Move self i D D') (hcall : i.call.isRaiseDispute) :
    (D.state = .funded ∨ D.state = .delivered) ∧ D' = { D with state := .disputed } := by
  cases hc : i.call <;> rw [hc] at hcall <;> try cases hcall
  cases h with
  | disputed caller hcall hstate => exact ⟨hstate, rfl⟩
  | _ => simp_all [Call.quiet, StageBy, RefundBy]

theorem Approved.note {arbiter : Address} {verdict : Bool} (h : Approved arbiter verdict history)
    (hcall : i.call.isRaiseDispute = false) :
    Approved arbiter verdict (noteDispute i history) := by
  obtain ⟨j, hj, hvote⟩ := h
  refine ⟨j, ?_, hvote⟩
  simp [noteDispute, hcall, hj]

/-- A move that leaves the approvals alone, and the states before a dispute without any. -/
theorem QuorumOpen.same (hQ : QuorumOpen C D history) (hcommittee : D'.committee = D.committee)
    (happrovals : D'.approvals = D.approvals)
    (hraise : i.call.isRaiseDispute → D.approvals = [])
    (hbefore : D'.state = .created ∨ D'.state = .funded ∨ D'.state = .delivered →
      D.approvals = []) : QuorumOpen C D' (noteDispute i history) := by
  refine ⟨hcommittee.trans hQ.committee, ?_, ?_, ?_, ?_, ?_⟩ <;> rw [happrovals]
  · exact hQ.nodup
  · exact hQ.members
  · exact hQ.short
  · intro a ha
    by_cases hcall : i.call.isRaiseDispute
    · rw [hraise hcall] at ha
      simp at ha
    · exact (hQ.cast a ha).note (by simpa using hcall)
  · exact hbefore

theorem quorumOpen_move (hQ : QuorumOpen C D history) (h : Move self i D D') :
    QuorumOpen C D' (noteDispute i history) := by
  have hraise : i.call.isRaiseDispute → D.approvals = [] := fun hcall =>
    hQ.before (.inr (h.of_raiseDispute hcall).1)
  cases h with
  | recorded C' arbiter verdict hcall hstate hC' hmem hauth hnew hlt =>
    have hsame : C = C' := Option.some.inj (hQ.committee.symm.trans hC')
    subst hsame
    have hnot : i.call.isRaiseDispute = false := by rw [hcall]; rfl
    refine ⟨hQ.committee, ?_, ?_, ?_, ?_, ?_⟩
    · simp only [List.map_append, List.map_cons, List.map_nil]
      rw [List.nodup_append]
      refine ⟨hQ.nodup, by simp, ?_⟩
      intro x hx y hy
      obtain ⟨a, ha, rfl⟩ := List.mem_map.mp hx
      rw [List.mem_singleton.mp hy]
      exact hnew a ha
    · intro a ha
      rcases List.mem_append.mp ha with ha | ha
      · exact hQ.members a ha
      · rw [List.mem_singleton.mp ha]
        exact hmem
    · simp only [List.length_append, List.length_cons, List.length_nil]
      omega
    · intro a ha
      rcases List.mem_append.mp ha with ha | ha
      · exact (hQ.cast a ha).note hnot
      · rw [List.mem_singleton.mp ha]
        exact ⟨i, by simp [noteDispute, hnot], hcall, hauth⟩
    · simp only [hstate]
      rintro (hst | hst | hst) <;> cases hst
  | idle | configured | updated | releasedPart => exact hQ.same rfl rfl hraise hQ.before
  | funded hcall hauth hstate | fundedBasket B hcall hB hauth hstate =>
    exact hQ.same rfl rfl hraise fun _ => hQ.before (.inl hstate)
  | delivered hcall hstate | releasedStage S k m gross hcall hstate =>
    exact hQ.same rfl rfl hraise fun _ => hQ.before (.inr (.inl hstate))
  | disputed caller hcall hstate =>
    exact hQ.same rfl rfl hraise fun _ => hQ.before (.inr hstate)
  | cancelled | released | releasedBasket | refundedBasket =>
    refine hQ.same rfl rfl hraise ?_
    rintro (hst | hst | hst) <;> cases hst
  | refunded final hcall =>
    refine hQ.same rfl rfl hraise ?_
    have hover := hcall.final_terminal
    rintro (hst | hst | hst) <;> simp only [close] at hst <;> rw [hst] at hover <;> cases hover

theorem QuorumOpen.cleared (hcommittee : D'.committee = some C) (happrovals : D'.approvals = []) :
    QuorumOpen C D' history := by
  refine ⟨hcommittee, ?_, ?_, ?_, ?_, fun _ => happrovals⟩ <;> rw [happrovals]
  · simp
  · simp
  · exact C.required_pos
  · simp

theorem quorumOpen_step {d : Deployment} {s t : State} (hkeep : d.settlement.KeepsTerms)
    (hs : Represents s D) (hQ : QuorumOpen C D history) (h : exec d i s = .ok t) :
    ∃ D', Represents t D' ∧ QuorumOpen C D' (noteDispute i history) := by
  cases hverdict : settleVerdict d i s with
  | none =>
    obtain ⟨D', ht, hmove⟩ := exec_move hs hverdict h
    exact ⟨D', ht, quorumOpen_move hQ hmove⟩
  | some verdict =>
    obtain ⟨arbiter, _, _, _, _, _, _, hexec⟩ :=
      settleVerdict_some hs hQ.committee hQ.short hverdict
    rw [hexec] at h
    have hempty : Represents { s with disputeApprovals := none } { D with approvals := [] } :=
      { hs with approvals := rfl }
    obtain ⟨D', ht, hcommittee, happrovals⟩ := settle_ok hkeep hempty h
    exact ⟨D', ht, QuorumOpen.cleared (hcommittee.trans hQ.committee) happrovals⟩

end Safety

theorem quorumOpen_run {d : Deployment} {s : State} {D : Deal} {C : Committee}
    (hkeep : d.settlement.KeepsTerms) (hs : Represents s D) (hQ : QuorumOpen C D [])
    (is : List Invocation) :
    ∃ D', Represents (run d s is) D' ∧ QuorumOpen C D' (disputeHistory d s is) := by
  have hstep : ∀ x i y, (∃ D, Represents x.1 D ∧ QuorumOpen C D x.2) →
      noting (exec d) noteDispute i x = .ok y → ∃ D, Represents y.1 D ∧ QuorumOpen C D y.2 := by
    rintro x i y ⟨D, hs, hQ⟩ hy
    obtain ⟨hexec, hnote⟩ := noting_ok hy
    rw [hnote]
    exact quorumOpen_step hkeep hs hQ hexec
  have hrun := run_invariant hstep (s := (s, [])) ⟨D, hs, hQ⟩ is
  rw [run_noting_fst] at hrun
  exact hrun

theorem quorumOpen_opening {d : Deployment} {i₀ : Invocation} {s₀ : State}
    {admin buyer seller token : Address} {arbiters : List Address} {amount : ℤ}
    {deadline required timeout : ℕ} {hash : Option Hash}
    (hinit : i₀.call = .initializeWithArbiters admin buyer seller arbiters token amount deadline
      required timeout hash)
    (hcreate : exec d i₀ State.empty = .ok s₀) :
    ∃ D C, Represents s₀ D ∧ QuorumOpen C D [] ∧ C.members = arbiters ∧ C.required = required := by
  obtain ⟨D, hs, hopen⟩ := exec_opening (by rw [hinit]; rfl) hcreate
  rw [hinit] at hopen
  obtain ⟨hmembers, hrequired⟩ := hopen.committee
  rw [Option.map_eq_some_iff] at hmembers
  obtain ⟨C, hC, hlist⟩ := hmembers
  refine ⟨D, C, hs, .cleared hC hopen.approvals, hlist, ?_⟩
  simpa [Deal.required, hC] using hrequired

/-- The stored approvals are a part of the committee that is short of a quorum. -/
structure ShortOfQuorum (arbiters : List Address) (required : ℕ) (s : State) : Prop where
  committee : s.arbiters = some arbiters
  threshold : s.requiredSignatures = some required
  nodup : ((approvals s).map Prod.fst).Nodup
  members : ∀ a ∈ approvals s, a.1 ∈ arbiters
  short : (approvals s).length < required

/-- Only a unanimous quorum of distinct members settles a dispute, and `resolve_dispute`
    never does. -/
theorem quorum_safety (d : Deployment) (i₀ : Invocation) (s₀ : State) (is : List Invocation)
    (admin buyer seller token : Address) (arbiters : List Address) (amount : ℤ)
    (deadline required timeout : ℕ) (hash : Option Hash)
    (hkeep : d.settlement.KeepsTerms)
    (hinit : i₀.call = .initializeWithArbiters admin buyer seller arbiters token amount deadline
      required timeout hash)
    (hcreate : exec d i₀ State.empty = .ok s₀) :
    ShortOfQuorum arbiters required (run d s₀ is) ∧
      ∀ i verdict, settleVerdict d i (run d s₀ is) = some verdict →
        (∃ voters : List Address, voters.Nodup ∧ required ≤ voters.length ∧
          ∀ a ∈ voters, a ∈ arbiters ∧ Approved a verdict (disputeHistory d s₀ is ++ [i])) ∧
        (∀ a ∈ approvals (run d s₀ is), a.2 = verdict) ∧
        ∀ caller direction, i.call ≠ .resolveDispute caller direction := by
  obtain ⟨D₀, C, hs₀, hQ₀, rfl, rfl⟩ := quorumOpen_opening hinit hcreate
  obtain ⟨D, hs, hQ⟩ := quorumOpen_run hkeep hs₀ hQ₀ is
  refine ⟨⟨?_, ?_, ?_, ?_, ?_⟩, ?_⟩
  · rw [hs.arbiters, hQ.committee]
    rfl
  · simp [hs.required, Deal.required, hQ.committee]
  · rw [hs.approvals]
    exact hQ.nodup
  · rw [hs.approvals]
    exact hQ.members
  · rw [hs.approvals]
    exact hQ.short
  · intro i verdict hverdict
    obtain ⟨arbiter, hcall, hmem, hauth, hnew, hfull, hagree, _⟩ :=
      settleVerdict_some hs hQ.committee hQ.short hverdict
    refine ⟨⟨arbiter :: D.approvals.map Prod.fst, ?_, ?_, ?_⟩, ?_, ?_⟩
    · refine List.nodup_cons.mpr ⟨?_, hQ.nodup⟩
      intro hx
      obtain ⟨a, ha, hax⟩ := List.mem_map.mp hx
      exact hnew a ha hax
    · simp only [List.length_cons, List.length_map]
      exact hfull
    · intro a ha
      rcases List.mem_cons.mp ha with rfl | ha
      · exact ⟨hmem, i, by simp, hcall, hauth⟩
      · obtain ⟨x, hx, rfl⟩ := List.mem_map.mp ha
        obtain ⟨j, hj, hjcall, hjauth⟩ := hQ.cast x hx
        refine ⟨hQ.members x hx, j, by simp [hj], ?_, hjauth⟩
        rw [hjcall, hagree x hx]
    · rw [hs.approvals]
      exact hagree
    · intro caller direction hresolve
      rw [hcall] at hresolve
      cases hresolve

theorem demoPay_keepsTerms {purpose : Purpose} {target : Address} {env : Env} {amount : ℤ}
    {state : Option EscrowState} {rest : Option ℤ} {s t : State}
    (hstate : s.state.isSome → state.isSome) (hrest : s.amount.isSome → rest.isSome)
    (h : demoPay purpose target env amount { s with state := state, amount := rest } = .ok t) :
    KeepsTerms s t := by
  rw [demoPay, callTransfer_eq_ok] at h
  obtain ⟨_, rfl⟩ := h
  refine ⟨state, rest, Milestone.released, s.locked,
    s.transfers ++ [⟨purpose, demoToken, demoSelf, target, amount⟩], hstate, hrest, ?_⟩
  simp

theorem demoSettlement_keepsTerms : demoDeployment.settlement.KeepsTerms where
  transferFunds _ _ _ _ _ h := demoPay_keepsTerms (fun hs => hs) (fun hs => hs) h
  releaseToSellerAmount _ _ _ _ h := demoPay_keepsTerms (fun _ => rfl) (fun _ => rfl) h
  refundToBuyerAmount _ _ _ _ h := demoPay_keepsTerms (fun _ => rfl) (fun _ => rfl) h

def demoCommittee : Invocation :=
  demoCall [demoAdmin] (.initializeWithArbiters demoAdmin demoBuyer demoSeller [⟨3⟩, ⟨4⟩, ⟨5⟩]
    demoToken 100 100 2 50 none)

def demoCommitteeState : State := step (exec demoDeployment) State.empty demoCommittee

def demoDispute : List Invocation :=
  [demoCall [demoBuyer] .fund, demoCall [demoSeller] (.raiseDispute demoSeller)]

def demoApprove (arbiter : Address) (verdict : Bool) : Invocation :=
  demoCall [arbiter] (.approveDispute arbiter verdict)

theorem quorum_safety_demo :
    settleVerdict demoDeployment (demoApprove ⟨5⟩ true)
        (run demoDeployment demoCommitteeState (demoDispute ++ [demoApprove ⟨3⟩ true])) =
          some true ∧
      ∃ voters : List Address, voters.Nodup ∧ 2 ≤ voters.length ∧
        ∀ a ∈ voters, a ∈ [(⟨3⟩ : Address), ⟨4⟩, ⟨5⟩] ∧
          Approved a true (disputeHistory demoDeployment demoCommitteeState
            (demoDispute ++ [demoApprove ⟨3⟩ true]) ++ [demoApprove ⟨5⟩ true]) := by
  have hverdict : settleVerdict demoDeployment (demoApprove ⟨5⟩ true)
      (run demoDeployment demoCommitteeState (demoDispute ++ [demoApprove ⟨3⟩ true])) =
        some true := by
    decide +kernel
  exact ⟨hverdict, ((quorum_safety demoDeployment demoCommittee demoCommitteeState
    (demoDispute ++ [demoApprove ⟨3⟩ true]) _ _ _ _ _ _ _ _ _ _ demoSettlement_keepsTerms rfl
    rfl).2 _ _ hverdict).1⟩

/-- One call of `approve_dispute`. -/
structure Ballot extends Env where
  arbiter : Address
  verdict : Bool

def Ballot.vote (b : Ballot) : Address × Bool := (b.arbiter, b.verdict)

def Ballot.invocation (b : Ballot) : Invocation where
  toEnv := b.toEnv
  call := .approveDispute b.arbiter b.verdict

def Fresh (recorded : List (Address × Bool)) (b : Ballot) : Prop :=
  ∀ a ∈ recorded, a.1 ≠ b.arbiter

instance (recorded : List (Address × Bool)) : DecidablePred (Fresh recorded) := fun _ =>
  List.decidableBAll _ _

/-- All votes of a dispute in their order: those on record and the first one of everybody else. -/
def votes (recorded : List (Address × Bool)) (bs : List Ballot) : List (Address × Bool) :=
  recorded ++ (bs.filter (fun b => Fresh recorded b)).map Ballot.vote

/-- How many votes there are for a verdict. -/
def tally (verdict : Bool) (l : List (Address × Bool)) : ℕ := l.countP (fun a => a.2 = verdict)

/-- Some invocation of the run reaches `settle` with this verdict. -/
def ReachesSettle (d : Deployment) (verdict : Bool) : State → List Invocation → Prop
  | _, [] => False
  | s, i :: is => settleVerdict d i s = some verdict ∨
      ReachesSettle d verdict (step (exec d) s i) is

section Votes
variable {recorded : List (Address × Bool)} {b : Ballot} {bs : List Ballot}

theorem votes_skip (h : ¬ Fresh recorded b) : votes recorded (b :: bs) = votes recorded bs := by
  simp [votes, h]

theorem votes_fresh (h : Fresh recorded b) : votes recorded (b :: bs) =
    recorded ++ b.vote :: (bs.filter (fun b => Fresh recorded b)).map Ballot.vote := by
  simp [votes, h]

theorem fresh_append {x : Ballot} :
    Fresh (recorded ++ [b.vote]) x ↔ Fresh recorded x ∧ b.arbiter ≠ x.arbiter := by
  unfold Fresh
  simp only [List.mem_append, List.mem_singleton, or_imp, forall_and, forall_eq]
  rfl

theorem votes_record (h : Fresh recorded b) (hnew : b.arbiter ∉ bs.map Ballot.arbiter) :
    votes (recorded ++ [b.vote]) bs = votes recorded (b :: bs) := by
  have hfilter : bs.filter (fun x => Fresh (recorded ++ [b.vote]) x) =
      bs.filter (fun x => Fresh recorded x) := by
    refine List.filter_congr fun x hx => ?_
    have hne : b.arbiter ≠ x.arbiter := by
      intro heq
      exact hnew (heq ▸ List.mem_map_of_mem hx)
    rw [decide_eq_decide, fresh_append]
    exact and_iff_left hne
  rw [votes_fresh h, votes, hfilter]
  simp

theorem tally_votes_le (bs : List Ballot) (h : Fresh recorded b) (verdict : Bool) :
    tally verdict (votes recorded bs) ≤ tally verdict (votes recorded (b :: bs)) := by
  rw [votes_fresh h]
  simp only [tally, votes, List.countP_append, List.countP_cons]
  omega

theorem length_lt_tally (bs : List Ballot) (h : Fresh recorded b)
    (hagree : ∀ a ∈ recorded, a.2 = b.verdict) :
    recorded.length + 1 ≤ tally b.verdict (votes recorded (b :: bs)) := by
  have hall : recorded.countP (fun a => a.2 = b.verdict) = recorded.length := by
    rw [List.countP_eq_length]
    intro a ha
    simpa using hagree a ha
  rw [votes_fresh h]
  simp only [tally, List.countP_append, List.countP_cons, hall, Ballot.vote, decide_true,
    ↓reduceIte]
  omega

end Votes

section Liveness
variable {d : Deployment} {s : State} {D : Deal} {C : Committee} {b : Ballot}

/-- The contract takes no calls from its users. -/
def Paused (d : Deployment) (s : State) : Prop := d.pausable ∧ s.paused.getD false

theorem settleVerdict_invocation (b : Ballot) : settleVerdict d b.invocation s =
    match approveDecision d b.toEnv b.arbiter b.verdict s with
    | .ok (.settle _ _ releaseToSeller) => some releaseToSeller
    | _ => none := rfl

theorem step_invocation_error {e : Failure EscrowError}
    (h : approveDecision d b.toEnv b.arbiter b.verdict s = .error e) :
    step (exec d) s b.invocation = s := by
  simp [step, exec, Ballot.invocation, approveDispute, h, bind, Except.bind]

theorem step_invocation_done {t : State}
    (h : approveDecision d b.toEnv b.arbiter b.verdict s = .ok (.done t)) :
    step (exec d) s b.invocation = t := by
  simp [step, exec, Ballot.invocation, approveDispute, h, bind, Except.bind, Decision.finish, pure,
    Except.pure]

theorem approveDecision_paused (h : Paused d s) :
    ∃ e, approveDecision d b.toEnv b.arbiter b.verdict s = .error e := by
  simp [approveDecision, requireNotPaused, rejectIf, h.1, h.2, bind, Except.bind]

theorem approveDecision_eq (hs : Represents s D) (hstate : D.state = .disputed)
    (hC : D.committee = some C) (hopen : ¬ Paused d s) (hmem : b.arbiter ∈ C.members)
    (hauth : b.arbiter ∈ b.auths) :
    approveDecision d b.toEnv b.arbiter b.verdict s =
      match recordedDirection b.arbiter D.approvals with
      | some direction =>
        if direction ≠ b.verdict then .error (.error .notAuthorized) else .ok (.done s)
      | none =>
        if D.approvals.length + 1 < C.required then
          .ok (.done { s with disputeApprovals := some (D.approvals ++ [b.vote]) })
        else if ∀ a ∈ D.approvals, a.2 = b.verdict then
          .ok (.settle { s with disputeApprovals := none } b.arbiter b.verdict)
        else .error (.error .notAuthorized) := by
  have hpaused : requireNotPaused d s = .ok () := rejectIf_neg hopen
  have hdisputed : requireState .disputed s = .ok () :=
    requireState_eq_ok.mpr (hs.state_iff.mpr hstate)
  have hmembers : okOr s.arbiters EscrowError.notInitialized = .ok C.members := by
    rw [okOr_eq_ok, hs.arbiters, hC]
    rfl
  have hmember : rejectIf (b.arbiter ∉ C.members) EscrowError.notAuthorized = .ok () :=
    rejectIf_neg (not_not.mpr hmem)
  have hasked : requireAuth b.toContext b.arbiter = (.ok () : Result EscrowError Unit) :=
    requireAuth_eq_ok.mpr hauth
  have hrequired : s.requiredSignatures.getD 1 = C.required := by
    simp [hs.required, Deal.required, hC]
  unfold approveDecision
  simp only [hpaused, hdisputed, hmembers, hmember, hasked, ok_bind, hs.approvals, hrequired]
  cases hrec : recordedDirection b.arbiter D.approvals with
  | some direction =>
    by_cases hsame : direction ≠ b.verdict
    · simp only [rejectIf_pos hsame, if_pos hsame]
      rfl
    · simp only [rejectIf_neg hsame, if_neg hsame]
      rfl
  | none =>
    simp only [List.length_append, List.length_cons, List.length_nil, Nat.zero_add]
    by_cases hlt : D.approvals.length + 1 < C.required
    · simp only [if_pos hlt]
      rfl
    · simp only [if_neg hlt]
      by_cases hagree : ∀ a ∈ D.approvals, a.2 = b.verdict
      · -- the head of the list is `b.verdict`, recorded before or just now
        have hhead : (((D.approvals ++ [(b.arbiter, b.verdict)]).head?.map Prod.snd).getD false) =
            b.verdict := by
          cases happrovals : D.approvals with
          | nil => rfl
          | cons a rest => exact hagree a (by simp [happrovals])
        have hnone : ¬ ∃ a ∈ D.approvals ++ [(b.arbiter, b.verdict)], a.2 ≠ b.verdict := by
          rintro ⟨a, ha, hne⟩
          rcases List.mem_append.mp ha with ha | ha
          · exact hne (hagree a ha)
          · rw [List.mem_singleton.mp ha] at hne
            exact hne rfl
        rw [hhead, rejectIf_neg hnone, if_pos hagree]
        rfl
      · have hsome : ∃ a ∈ D.approvals ++ [(b.arbiter, b.verdict)],
            a.2 ≠ (((D.approvals ++ [(b.arbiter, b.verdict)]).head?.map Prod.snd).getD false) := by
          by_contra hall
          push Not at hall
          refine hagree fun a ha => ?_
          rw [hall a (by simp [ha]), ← hall (b.arbiter, b.verdict) (by simp)]
        rw [rejectIf_pos hsome, if_neg hagree]
        rfl

structure OpenDispute (d : Deployment) (C : Committee) (s : State) (D : Deal) : Prop where
  represents : Represents s D
  state : D.state = .disputed
  committee : D.committee = some C
  running : ¬ Paused d s
  short : D.approvals.length < C.required

def Admitted (C : Committee) (b : Ballot) : Prop := b.arbiter ∈ C.members ∧ b.arbiter ∈ b.auths

theorem ballot_cases (hs : OpenDispute d C s D) (hb : Admitted C b) :
    (step (exec d) s b.invocation = s ∧ settleVerdict d b.invocation s = none ∧
      (¬ Fresh D.approvals b ∨ Fresh D.approvals b ∧ D.approvals.length + 1 = C.required ∧
        ∃ a ∈ D.approvals, a.2 ≠ b.verdict)) ∨
    (OpenDispute d C (step (exec d) s b.invocation)
        { D with approvals := D.approvals ++ [b.vote] } ∧
      settleVerdict d b.invocation s = none ∧ Fresh D.approvals b) ∨
    (settleVerdict d b.invocation s = some b.verdict ∧ Fresh D.approvals b ∧
      D.approvals.length + 1 = C.required ∧ ∀ a ∈ D.approvals, a.2 = b.verdict) := by
  have heq := approveDecision_eq hs.represents hs.state hs.committee hs.running hb.1 hb.2
  have hshort := hs.short
  cases hrec : recordedDirection b.arbiter D.approvals with
  | some direction =>
    have hold : ¬ Fresh D.approvals b := by
      intro hfresh
      rw [recordedDirection_eq_none.mpr hfresh] at hrec
      cases hrec
    simp only [hrec] at heq
    refine .inl ⟨?_, ?_, .inl hold⟩
    · split at heq
      · exact step_invocation_error heq
      · exact step_invocation_done heq
    · rw [settleVerdict_invocation, heq]
      by_cases hsame : direction ≠ b.verdict
      · rw [if_pos hsame]
      · rw [if_neg hsame]
  | none =>
    have hfresh : Fresh D.approvals b := recordedDirection_eq_none.mp hrec
    simp only [hrec] at heq
    by_cases hlt : D.approvals.length + 1 < C.required
    · rw [if_pos hlt] at heq
      refine .inr (.inl ⟨?_, by rw [settleVerdict_invocation, heq], hfresh⟩)
      rw [step_invocation_done heq]
      exact ⟨{ hs.represents with approvals := rfl }, hs.state, hs.committee, hs.running,
        by simpa using hlt⟩
    · rw [if_neg hlt] at heq
      have hfull : D.approvals.length + 1 = C.required := by omega
      by_cases hagree : ∀ a ∈ D.approvals, a.2 = b.verdict
      · rw [if_pos hagree] at heq
        exact .inr (.inr ⟨by rw [settleVerdict_invocation, heq], hfresh, hfull, hagree⟩)
      · rw [if_neg hagree] at heq
        push Not at hagree
        exact .inl ⟨step_invocation_error heq, by rw [settleVerdict_invocation, heq],
          .inr ⟨hfresh, hfull, hagree⟩⟩

theorem take_votes_full {recorded : List (Address × Bool)} {n : ℕ} {bs : List Ballot}
    (h : recorded.length = n) : (votes recorded bs).take n = recorded := by
  rw [votes, ← h, List.take_left]

theorem drop_votes_full {recorded : List (Address × Bool)} {n : ℕ} {bs : List Ballot}
    (h : recorded.length = n) :
    (votes recorded bs).drop n = (bs.filter (fun b => Fresh recorded b)).map Ballot.vote := by
  rw [votes, ← h, List.drop_left]

theorem reaches_of_agreement {verdict : Bool} {bs : List Ballot} (hs : OpenDispute d C s D)
    (hbs : ∀ b ∈ bs, Admitted C b) (hnodup : (bs.map Ballot.arbiter).Nodup)
    (hfew : tally (!verdict) (votes D.approvals bs) < C.required)
    (hfirst : ∀ a ∈ (votes D.approvals bs).take (C.required - 1), a.2 = verdict)
    (hnext : ∃ a ∈ (votes D.approvals bs).drop (C.required - 1), a.2 = verdict) :
    ReachesSettle d verdict s (bs.map Ballot.invocation) := by
  induction bs generalizing s D with
  | nil =>
    have hshort := hs.short
    have hdrop : (votes D.approvals []).drop (C.required - 1) = [] := by
      rw [votes]
      simp only [List.filter_nil, List.map_nil, List.append_nil]
      exact List.drop_eq_nil_of_le (by omega)
    rw [hdrop] at hnext
    simp at hnext
  | cons b bs ih =>
    have hrest : ∀ x ∈ bs, Admitted C x := fun x hx => hbs x (by simp [hx])
    rw [List.map_cons, List.nodup_cons] at hnodup
    rcases ballot_cases hs (hbs b (by simp)) with
      ⟨hstep, hnone, hwhy⟩ | ⟨hrecorded, hnone, hfresh⟩ | ⟨hsettles, hfresh, hfull, hagree⟩
    · refine .inr ?_
      rw [hstep]
      rcases hwhy with hold | ⟨hfresh, hfull, a, ha, hne⟩
      · rw [votes_skip hold] at hfew hfirst hnext
        exact ih hs hrest hnodup.2 hfew hfirst hnext
      · have hlen : D.approvals.length = C.required - 1 := by omega
        rw [take_votes_full hlen] at hfirst
        -- the rejected ballot is not the one that settles
        have hother : b.verdict ≠ verdict := by
          rw [← hfirst a ha]
          exact hne.symm
        have hfew' := tally_votes_le bs hfresh (!verdict)
        refine ih hs hrest hnodup.2 (by omega) (by rwa [take_votes_full hlen]) ?_
        rw [drop_votes_full hlen] at hnext ⊢
        obtain ⟨x, hx, hverdict⟩ := hnext
        simp only [List.filter_cons, hfresh, decide_true, ↓reduceIte, List.map_cons,
          List.mem_cons] at hx
        rcases hx with rfl | hx
        · exact absurd hverdict hother
        · exact ⟨x, hx, hverdict⟩
    · rw [← votes_record hfresh hnodup.1] at hfew hfirst hnext
      exact .inr (ih hrecorded hrest hnodup.2 hfew hfirst hnext)
    · have hsame : b.verdict = verdict := by
        by_contra hne
        have hcount := length_lt_tally bs hfresh hagree
        rw [Bool.eq_not.mpr hne] at hcount
        omega
      exact .inl (by rw [hsettles, hsame])

theorem blocked_of_dissent {verdict : Bool} {bs : List Ballot} (hs : OpenDispute d C s D)
    (hbs : ∀ b ∈ bs, Admitted C b) (hnodup : (bs.map Ballot.arbiter).Nodup)
    (hfew : tally (!verdict) (votes D.approvals bs) < C.required)
    (hdissent : ∃ a ∈ (votes D.approvals bs).take (C.required - 1), a.2 ≠ verdict) :
    ¬ ReachesSettle d verdict s (bs.map Ballot.invocation) := by
  induction bs generalizing s D with
  | nil => exact fun h => h
  | cons b bs ih =>
    have hrest : ∀ x ∈ bs, Admitted C x := fun x hx => hbs x (by simp [hx])
    rw [List.map_cons, List.nodup_cons] at hnodup
    rintro (hsettled | hlater)
    · rcases ballot_cases hs (hbs b (by simp)) with
        ⟨_, hnone, _⟩ | ⟨_, hnone, _⟩ | ⟨hsettles, hfresh, hfull, hagree⟩
      · rw [hnone] at hsettled
        cases hsettled
      · rw [hnone] at hsettled
        cases hsettled
      · have hsame : b.verdict = verdict := Option.some.inj (hsettles.symm.trans hsettled)
        rw [take_votes_full (by omega)] at hdissent
        obtain ⟨a, ha, hne⟩ := hdissent
        exact hne ((hagree a ha).trans hsame)
    · rcases ballot_cases hs (hbs b (by simp)) with
        ⟨hstep, _, hwhy⟩ | ⟨hrecorded, _, hfresh⟩ | ⟨hsettles, hfresh, hfull, hagree⟩
      · rw [hstep] at hlater
        rcases hwhy with hold | ⟨hfresh, hfull, _⟩
        · rw [votes_skip hold] at hfew hdissent
          exact ih hs hrest hnodup.2 hfew hdissent hlater
        · have hlen : D.approvals.length = C.required - 1 := by omega
          have hfew' := tally_votes_le bs hfresh (!verdict)
          rw [take_votes_full hlen] at hdissent
          exact ih hs hrest hnodup.2 (by omega) (by rwa [take_votes_full hlen]) hlater
      · rw [← votes_record hfresh hnodup.1] at hfew hdissent
        exact ih hrecorded hrest hnodup.2 hfew hdissent hlater
      · -- a unanimous quorum for the other verdict is one vote too many
        rw [take_votes_full (by omega)] at hdissent
        obtain ⟨a, ha, hne⟩ := hdissent
        have hother : b.verdict = !verdict := by
          rw [← hagree a ha]
          exact Bool.eq_not.mpr hne
        have hcount := length_lt_tally bs hfresh hagree
        rw [hother] at hcount
        omega

theorem blocked_of_paused {verdict : Bool} {bs : List Ballot} (h : Paused d s) :
    ¬ ReachesSettle d verdict s (bs.map Ballot.invocation) := by
  induction bs with
  | nil => exact fun h => h
  | cons b bs ih =>
    obtain ⟨e, he⟩ := approveDecision_paused (b := b) h
    rintro (hsettled | hlater)
    · rw [settleVerdict_invocation, he] at hsettled
      cases hsettled
    · rw [step_invocation_error he] at hlater
      exact ih hlater

/-- Of `n` votes for a verdict one is not among the first `n - 1` votes. -/
theorem exists_next_vote {verdict : Bool} {l : List (Address × Bool)} {n : ℕ} (hn : 0 < n)
    (h : n ≤ tally verdict l) : ∃ a ∈ l.drop (n - 1), a.2 = verdict := by
  have hsplit : tally verdict l =
      tally verdict (l.take (n - 1)) + tally verdict (l.drop (n - 1)) := by
    rw [tally, tally, tally, ← List.countP_append, List.take_append_drop]
  have htake : tally verdict (l.take (n - 1)) ≤ n - 1 :=
    List.countP_le_length.trans (by rw [List.length_take]; omega)
  have hpos : 0 < tally verdict (l.drop (n - 1)) := by omega
  rw [tally, List.countP_pos_iff] at hpos
  obtain ⟨a, ha, hverdict⟩ := hpos
  exact ⟨a, ha, by simpa using hverdict⟩

end Liveness

/-- A verdict with a quorum of votes settles the dispute exactly if the contract is not
    paused and no other verdict is among the votes before the quorum. -/
theorem quorum_settles_iff (d : Deployment) (i₀ : Invocation) (s₀ : State)
    (is : List Invocation) (admin buyer seller token : Address) (arbiters : List Address)
    (amount : ℤ) (deadline required timeout : ℕ) (hash : Option Hash)
    (hkeep : d.settlement.KeepsTerms)
    (hinit : i₀.call = .initializeWithArbiters admin buyer seller arbiters token amount deadline
      required timeout hash)
    (hcreate : exec d i₀ State.empty = .ok s₀)
    (hdisputed : (run d s₀ is).state = some .disputed)
    (bs : List Ballot) (verdict : Bool)
    (hdistinct : (bs.map Ballot.arbiter).Nodup)
    (hmembers : ∀ b ∈ bs, b.arbiter ∈ arbiters ∧ b.arbiter ∈ b.auths)
    (hquorum : required ≤ tally verdict (votes (approvals (run d s₀ is)) bs))
    (hother : tally (!verdict) (votes (approvals (run d s₀ is)) bs) < required) :
    ReachesSettle d verdict (run d s₀ is) (bs.map Ballot.invocation) ↔
      ¬ Paused d (run d s₀ is) ∧
        ∀ a ∈ (votes (approvals (run d s₀ is)) bs).take (required - 1), a.2 = verdict := by
  obtain ⟨D₀, C, hs₀, hQ₀, rfl, rfl⟩ := quorumOpen_opening hinit hcreate
  obtain ⟨D, hs, hQ⟩ := quorumOpen_run hkeep hs₀ hQ₀ is
  rw [hs.approvals] at hquorum hother ⊢
  have hdispute : ¬ Paused d (run d s₀ is) → OpenDispute d C (run d s₀ is) D := fun hrunning =>
    ⟨hs, hs.state_iff.mp hdisputed, hQ.committee, hrunning, hQ.short⟩
  constructor
  · intro hreach
    have hrunning : ¬ Paused d (run d s₀ is) := fun hpaused => blocked_of_paused hpaused hreach
    refine ⟨hrunning, ?_⟩
    by_contra hdissent
    push Not at hdissent
    exact blocked_of_dissent (hdispute hrunning) hmembers hdistinct hother hdissent hreach
  · rintro ⟨hrunning, hfirst⟩
    exact reaches_of_agreement (hdispute hrunning) hmembers hdistinct hother hfirst
      (exists_next_vote C.required_pos hquorum)

def demoBallot (arbiter : Address) (verdict : Bool) : Ballot where
  sequence := 5
  auths := [arbiter]
  tokens := ⟨fun _ _ => 1000, fun _ _ => true, fun _ => true⟩
  arbiter := arbiter
  verdict := verdict

def demoDisputed : State := run demoDeployment demoCommitteeState demoDispute

theorem quorum_settles_iff_demo :
    ReachesSettle demoDeployment true demoDisputed
      ([demoBallot ⟨4⟩ true, demoBallot ⟨3⟩ false, demoBallot ⟨5⟩ true].map Ballot.invocation) :=
  (quorum_settles_iff demoDeployment demoCommittee demoCommitteeState demoDispute _ _ _ _ _ _ _ _ _
    _ demoSettlement_keepsTerms rfl rfl (by decide +kernel)
    [demoBallot ⟨4⟩ true, demoBallot ⟨3⟩ false, demoBallot ⟨5⟩ true] true (by decide +kernel)
    (by decide +kernel) (by decide +kernel) (by decide +kernel)).mpr
    ⟨by unfold Paused; decide +kernel, by decide +kernel⟩

/-- Two of three arbiters release to the seller after the third one refused: no settlement. -/
theorem dissent_blocks_quorum :
    let bs := [demoBallot ⟨3⟩ false, demoBallot ⟨4⟩ true, demoBallot ⟨5⟩ true]
    approvals demoDisputed = [] ∧ demoDisputed.state = some .disputed ∧
      2 ≤ tally true (votes [] bs) ∧ tally false (votes [] bs) < 2 ∧
      ¬ ReachesSettle demoDeployment true demoDisputed (bs.map Ballot.invocation) := by
  refine ⟨by decide +kernel, by decide +kernel, by decide +kernel, by decide +kernel, ?_⟩
  rintro (h | h | h | h)
  · revert h
    decide +kernel
  · revert h
    decide +kernel
  · revert h
    decide +kernel
  · exact h

end SorobanKit.Escrow
