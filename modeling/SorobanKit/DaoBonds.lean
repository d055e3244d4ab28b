import SorobanKit.DaoLifecycle

set_option autoImplicit false

/-!
# Settlement of the bonds

A bond is paid out when its proposal is executed, cancelled by the admin or cancelled before voting.
A veto and the cancellation by the proposer close the proposal and leave the bond where it is; and
`queue_proposal` slashes in an invocation that fails.
-/
namespace SorobanKit.Dao
open HostInteger HostInvocation HostRuns HostTransfers

def Proposal.Closed (p : Proposal) : Prop := p.state = .executed ∨ p.state = .cancelled

/-- The bond of a proposal went to the proposer or to the admin, once. -/
def PaidOut (token admin house : Address) (pid : ℕ) (p : Proposal) (pay : List (Transfer Purpose)) :
    Prop :=
  pay = [⟨.bondRefund pid, token, house, p.proposer, p.bondAmount⟩] ∨
    pay = [⟨.bondSlash pid, token, house, admin, p.bondAmount⟩]

/-- What is promised of a bond. -/
structure Settled (token admin house : Address) (pid : ℕ) (s : State) : Prop where
  once : ∀ p, s.proposals.lookup pid = some p → 0 < p.bondAmount →
    payouts pid s.transfers = [] ∨ PaidOut token admin house pid p (payouts pid s.transfers)
  paid : ∀ p, s.proposals.lookup pid = some p → 0 < p.bondAmount → p.Closed →
    payouts pid s.transfers ≠ []

def Slashed (token admin house : Address) (pid : ℕ) (s : State) : Prop :=
  ∃ p, s.proposals.lookup pid = some p ∧
    ⟨.bondSlash pid, token, house, admin, p.bondAmount⟩ ∈ s.transfers

section Conditions
variable {dao : Deployment}

/-- The queue is called for a bonded proposal that missed the quorum or the majority. -/
def QueuesMissed (pid : ℕ) (s : State) (i : Invocation dao) : Prop :=
  i.call = .queueProposal pid ∧ ∃ p quorum, s.proposals.lookup pid = some p ∧
    s.quorum = some quorum ∧ 0 < p.bondAmount ∧ p.deadline < i.sequence ∧
    (p.yesVotes + p.noVotes < quorum ∨ p.yesVotes ≤ p.noVotes)

/-- A bonded proposal is closed by a call that leaves the bond. -/
def Forfeits (pid : ℕ) (s : State) (call : Call) : Prop :=
  call.Drops pid ∧ ∃ p, s.proposals.lookup pid = some p ∧ 0 < p.bondAmount

def Forfeited (pid : ℕ) (past : List (Entry State (Invocation dao))) : Prop :=
  ∃ e ∈ past, Forfeits pid e.before e.invocation.call

instance (pid : ℕ) (call : Call) : Decidable (call.Drops pid) := by
  cases call <;> first
    | exact inferInstanceAs (Decidable (_ = pid))
    | exact .isFalse id

structure BondHistory (c : Config) (pid : ℕ) (past : List (Entry State (Invocation dao)))
    (s : State) : Prop where
  ready : Ready c s
  unknown : s.proposals.lookup pid = none → payouts pid s.transfers = [] ∧ ¬ Forfeited pid past
  live : ∀ p, s.proposals.lookup pid = some p → ¬ p.Closed →
    payouts pid s.transfers = [] ∧ ¬ Forfeited pid past
  closed : ∀ p, s.proposals.lookup pid = some p → p.Closed →
    (0 < p.bondAmount ∧ Forfeited pid past ∧ payouts pid s.transfers = []) ∨
      (¬ Forfeited pid past ∧ (0 < p.bondAmount →
        PaidOut c.token c.admin dao.house pid p (payouts pid s.transfers)))

end Conditions

section Steps
variable {dao : Deployment} {c : Config} {i : Invocation dao} {s t : State} {pid : ℕ}
  {past : List (Entry State (Invocation dao))}

theorem Call.Drops.cancels {call : Call} (h : call.Drops pid) : call.Cancels pid := by
  cases call <;> first | exact h | exact h.elim

theorem forfeited_snoc (e : Entry State (Invocation dao)) :
    Forfeited pid (past ++ [e]) ↔ Forfeited pid past ∨ Forfeits pid e.before e.invocation.call := by
  simp only [Forfeited, List.mem_append, List.mem_singleton]
  constructor
  · rintro ⟨x, hx | rfl, h⟩
    · exact .inl ⟨x, hx, h⟩
    · exact .inr h
  · rintro (⟨x, hx, h⟩ | h)
    · exact ⟨x, .inl hx, h⟩
    · exact ⟨e, .inr rfl, h⟩

theorem forfeited_snoc_of_not (h : ¬ i.call.Drops pid) :
    Forfeited pid (past ++ [⟨s, i, t⟩]) ↔ Forfeited pid past := by
  rw [forfeited_snoc]
  exact or_iff_left fun hf => h hf.1

theorem BondHistory.untouched (hs : BondHistory c pid past s) (hready : Ready c t)
    (hdrops : ¬ i.call.Drops pid) (h : Effect pid s t (s.proposals.lookup pid) [] []) :
    BondHistory c pid (past ++ [⟨s, i, t⟩]) t := by
  have hforfeited : Forfeited pid (past ++ [⟨s, i, t⟩]) ↔ Forfeited pid past :=
    forfeited_snoc_of_not hdrops
  have hpay : payouts pid t.transfers = payouts pid s.transfers := by
    rw [h.pay_eq, List.append_nil]
  refine ⟨hready, ?_, ?_, ?_⟩
  · rw [h.lookup_eq, hpay, hforfeited]
    exact hs.unknown
  · rw [h.lookup_eq, hpay, hforfeited]
    exact hs.live
  · rw [h.lookup_eq, hpay, hforfeited]
    exact hs.closed

theorem BondHistory.alive (hclean : payouts pid s.transfers = [] ∧ ¬ Forfeited pid past)
    (hready : Ready c t) {q : Proposal} (hq : ¬ q.Closed) (hdrops : ¬ i.call.Drops pid)
    (h : Effect pid s t (some q) [] []) : BondHistory c pid (past ++ [⟨s, i, t⟩]) t := by
  obtain ⟨hpay, hnot⟩ := hclean
  have hpay' : payouts pid t.transfers = [] := by rw [h.pay_eq, hpay, List.append_nil]
  refine ⟨hready, fun hnone => ?_, fun r hr hlive' => ?_, fun r hr hclosed => ?_⟩
  · rw [h.lookup_eq] at hnone
    cases hnone
  · exact ⟨hpay', fun hf => hnot ((forfeited_snoc_of_not hdrops).mp hf)⟩
  · rw [h.lookup_eq] at hr
    cases hr
    exact absurd hclosed hq

/-- A call that closes the proposal and pays a positive bond. -/
theorem BondHistory.paid (hs : BondHistory c pid past s) (hready : Ready c t) {p q : Proposal}
    (hp : s.proposals.lookup pid = some p) (hlive : ¬ p.Closed) (hq : q.Closed)
    (hdrops : ¬ i.call.Drops pid) {pay : List (Transfer Purpose)} {act : List Dispatch}
    (h : Effect pid s t (some q) pay act)
    (hpay : 0 < q.bondAmount → PaidOut c.token c.admin dao.house pid q pay) :
    BondHistory c pid (past ++ [⟨s, i, t⟩]) t := by
  obtain ⟨hnone, hnot⟩ := hs.live p hp hlive
  refine ⟨hready, fun hfree => ?_, fun r hr hlive' => ?_, fun r hr _ => .inr ?_⟩
  · rw [h.lookup_eq] at hfree
    cases hfree
  · rw [h.lookup_eq] at hr
    cases hr
    exact absurd hq hlive'
  · rw [h.lookup_eq] at hr
    cases hr
    refine ⟨fun hf => hnot ((forfeited_snoc_of_not hdrops).mp hf), fun hbond => ?_⟩
    rw [h.pay_eq, hnone, List.nil_append]
    exact hpay hbond

theorem BondHistory.dropped (hs : BondHistory c pid past s) (hready : Ready c t) {p q : Proposal}
    (hp : s.proposals.lookup pid = some p) (hlive : ¬ p.Closed) (hdrops : i.call.Drops pid)
    (h : Effect pid s t (some q) [] []) (hq : q.Closed) (hbond : q.bondAmount = p.bondAmount) :
    BondHistory c pid (past ++ [⟨s, i, t⟩]) t := by
  obtain ⟨hpay, hnot⟩ := hs.live p hp hlive
  have hpay' : payouts pid t.transfers = [] := by rw [h.pay_eq, hpay, List.append_nil]
  refine ⟨hready, fun hfree => ?_, fun r hr hlive' => ?_, fun r hr _ => ?_⟩
  · rw [h.lookup_eq] at hfree
    cases hfree
  · rw [h.lookup_eq] at hr
    cases hr
    exact absurd hq hlive'
  · rw [h.lookup_eq] at hr
    cases hr
    rw [forfeited_snoc, hbond]
    by_cases hpos : 0 < p.bondAmount
    · exact .inl ⟨hpos, .inr ⟨hdrops, p, hp, hpos⟩, hpay'⟩
    · refine .inr ⟨?_, fun hpos' => absurd hpos' hpos⟩
      rintro (hf | ⟨_, r, hr, hpos'⟩)
      · exact hnot hf
      · rw [hp] at hr
        cases hr
        exact hpos hpos'

theorem bondPay_pos {purpose : Purpose} {token source target : Address} {bond : ℤ} (h : 0 < bond) :
    bondPay purpose token source target bond = [⟨purpose, token, source, target, bond⟩] :=
  if_pos h

theorem not_closed_of_active {p : Proposal} (h : p.state = .active) : ¬ p.Closed := by
  simp [Proposal.Closed, h]

theorem not_closed_of_queued {p : Proposal} (h : p.state = .queued) : ¬ p.Closed := by
  simp [Proposal.Closed, h]

theorem exec_bondHistory (hs : BondHistory c pid past s) (h : exec i s = .ok t) :
    BondHistory c pid (past ++ [⟨s, i, t⟩]) t := by
  have hready := exec_ready hs.ready h
  cases exec_change hs.ready pid h with
  | untouched hcall h =>
    exact hs.untouched hready (fun hd => hcall (Call.Drops.cancels hd)) h
  | created p hcall hnone hstate hyes hno hsupply h =>
    exact .alive (hs.unknown hnone) hready (not_closed_of_active hstate)
      (fun hd => hcall (Call.Drops.cancels hd)) h
  | voted voter p own weight support hcall hp hstate hown hweight h =>
    exact .alive (hs.live p hp (not_closed_of_active hstate)) hready
      (not_closed_of_active ((withVotes_state p support weight).trans hstate))
      (fun hd => hcall (Call.Drops.cancels hd)) h
  | queued p hcall hp hstate hlate hpassed h =>
    exact .alive (hs.live p hp (not_closed_of_active hstate)) hready (not_closed_of_queued rfl)
      (by rw [hcall]; exact id) h
  | executed p hp hcall h =>
    have hlive : ¬ p.Closed := by
      rcases hcall with ⟨_, hstate, _⟩ | ⟨_, _, _, _, hstate | hstate⟩
      · exact not_closed_of_queued hstate
      · exact not_closed_of_active hstate
      · exact not_closed_of_queued hstate
    have hdrops : ¬ i.call.Drops pid := by
      rcases hcall with ⟨hcall, _⟩ | ⟨_, hcall, _⟩ <;> rw [hcall] <;> exact id
    exact hs.paid hready hp hlive (.inl rfl) hdrops h fun hbond => .inl (bondPay_pos hbond)
  | cancelled p purpose target hp hstate hcall h =>
    have hdrops : ¬ i.call.Drops pid := by
      rcases hcall with ⟨hcall, _⟩ | ⟨hcall, _⟩ <;> rw [hcall] <;> exact id
    refine hs.paid hready hp (not_closed_of_active hstate) (.inr rfl) hdrops h fun hbond => ?_
    rw [bondPay_pos hbond]
    rcases hcall with ⟨_, rfl, rfl⟩ | ⟨_, rfl, rfl⟩
    · exact .inr rfl
    · exact .inl rfl
  | dropped p hp hcall h =>
    have hlive : ¬ p.Closed := by
      rcases hcall with ⟨_, hstate⟩ | ⟨_, hstate⟩
      · exact not_closed_of_queued hstate
      · exact not_closed_of_active hstate
    have hdrops : i.call.Drops pid := by
      rcases hcall with ⟨hcall, _⟩ | ⟨hcall, _⟩ <;> rw [hcall] <;> rfl
    exact hs.dropped hready hp hlive hdrops h (.inr rfl) rfl

theorem queuesMissed_step (h : QueuesMissed pid s i) : step exec s i = s := by
  obtain ⟨hcall, p, quorum, hp, hquorum, _, _, hmissed⟩ := h
  rcases step_cases exec s i with hok | hsame
  · exfalso
    unfold exec at hok
    rw [hcall] at hok
    simp only [queueProposal, getProposal, getInstance, bind_eq_ok, okOr_eq_ok, checkedAdd_eq_some,
      hp, hquorum, Option.some.injEq] at hok
    obtain ⟨_, _, _, rfl, _, _, _, _, _, rfl, _, ⟨_, rfl⟩, hok⟩ := hok
    split at hok
    · simp [failWith] at hok
    · next hreached =>
      have hmajority : p.yesVotes ≤ p.noVotes := by
        rcases hmissed with hless | hless
        · exact absurd hless hreached
        · exact hless
      rw [if_pos hmajority] at hok
      simp [failWith] at hok
  · exact hsame

end Steps

theorem initializeDao_bondHistory {dao : Deployment} {env : Env} {admin token : Address}
    {votingPeriod : ℕ} {quorum proposalBond : ℤ} {minQuorumBps maxQuorumBps quorumBps executionDelay : ℕ}
    {s : State} (pid : ℕ) (h : initializeDao env admin token votingPeriod quorum proposalBond
      minQuorumBps maxQuorumBps quorumBps executionDelay State.empty = .ok s) :
    BondHistory ⟨admin, token, quorum, proposalBond, quorumBps, executionDelay⟩ pid
      ([] : List (Entry State (Invocation dao))) s := by
  obtain ⟨_, hready, hproposals, _, htransfers, _⟩ := initializeDao_ready h
  refine ⟨hready, fun _ => ⟨by rw [htransfers]; rfl, ?_⟩, fun p hp => ?_, fun p hp => ?_⟩
  · rintro ⟨e, he, _⟩
    cases he
  · simp [hproposals] at hp
  · simp [hproposals] at hp

/-- A run keeps what is promised of the bond of a proposal exactly when no call that returned forfeits
    it and the queue is called for the missed proposal only after the admin slashed the bond. -/
theorem bond_settlement (dao : Deployment) (admin token : Address) (votingPeriod : ℕ)
    (quorum proposalBond : ℤ) (minQuorumBps maxQuorumBps quorumBps executionDelay : ℕ)
    (i₀ : Invocation dao) (s : State)
    (hcall : i₀.call = .initializeDao admin token votingPeriod quorum proposalBond minQuorumBps
      maxQuorumBps quorumBps executionDelay)
    (hinit : exec i₀ State.empty = .ok s) (is : List (Invocation dao)) (pid : ℕ) :
    (Settled token admin dao.house pid (run s is) ∧
      Along exec (fun s i => QueuesMissed pid s i →
        Slashed token admin dao.house pid (step exec s i)) s is) ↔
    (∀ e ∈ history exec s is, ¬ Forfeits pid e.before e.invocation.call) ∧
      Along exec (fun s i => QueuesMissed pid s i → Slashed token admin dao.house pid s) s is := by
  let c : Config := ⟨admin, token, quorum, proposalBond, quorumBps, executionDelay⟩
  have hs : BondHistory c pid ([] : List (Entry State (Invocation dao))) s := by
    unfold exec at hinit
    rw [hcall] at hinit
    exact initializeDao_bondHistory pid hinit
  have hrun : BondHistory c pid (history exec s is) (run s is) :=
    history_invariant_along (P := fun _ _ => True)
      (fun past s i t hs _ hok => exec_bondHistory hs hok) hs (along_true exec s is)
  have hqueue : Along exec (fun s i => QueuesMissed pid s i →
        Slashed token admin dao.house pid (step exec s i)) s is ↔
      Along exec (fun s i => QueuesMissed pid s i → Slashed token admin dao.house pid s) s is := by
    constructor
    · exact Along.mono fun u i hslashed hmissed => queuesMissed_step hmissed ▸ hslashed hmissed
    · exact Along.mono fun u i hslashed hmissed =>
        (queuesMissed_step hmissed).symm ▸ hslashed hmissed
  rw [hqueue]
  refine and_congr_left fun _ => ⟨fun hsettled e he hforfeits => ?_, fun hkept => ?_⟩
  · have hforfeited : Forfeited pid (history exec s is) := ⟨e, he, hforfeits⟩
    cases hp : (run s is).proposals.lookup pid with
    | none => exact (hrun.unknown hp).2 hforfeited
    | some p =>
      by_cases hclosed : p.Closed
      · rcases hrun.closed p hp hclosed with ⟨hbond, _, hnone⟩ | ⟨hnot, _⟩
        · exact hsettled.paid p hp hbond hclosed hnone
        · exact hnot hforfeited
      · exact (hrun.live p hp hclosed).2 hforfeited
  · have hnot : ¬ Forfeited pid (history exec s is) := fun ⟨e, he, hf⟩ => hkept e he hf
    have hpaid : ∀ p, (run s is).proposals.lookup pid = some p → 0 < p.bondAmount → p.Closed →
        PaidOut token admin dao.house pid p (payouts pid (run s is).transfers) := by
      intro p hp hbond hclosed
      rcases hrun.closed p hp hclosed with ⟨_, hforfeited, _⟩ | ⟨_, hpaid⟩
      · exact absurd hforfeited hnot
      · exact hpaid hbond
    refine ⟨fun p hp hbond => ?_, fun p hp hbond hclosed hnone => ?_⟩
    · by_cases hclosed : p.Closed
      · exact .inr (hpaid p hp hbond hclosed)
      · exact .inl (hrun.live p hp hclosed).1
    · rcases hpaid p hp hbond hclosed with hpay | hpay <;> rw [hnone] at hpay <;> cases hpay

theorem bond_settlement_demo :
    Settled demoToken demoAdmin demoDao.house 0
        (run (run State.empty [demoInitialize 30]) (demoExecuted .standard)) ∧
      payouts 0 (run (run State.empty [demoInitialize 30]) (demoExecuted .standard)).transfers =
        [⟨.bondRefund 0, demoToken, demoDao.house, demoCarol, 30⟩] := by
  have hsettlement := bond_settlement demoDao demoAdmin demoToken 10 50 30 0 0 0 5 (demoInitialize 30)
    (run State.empty [demoInitialize 30]) rfl rfl (demoExecuted .standard) 0
  have hdrops : ∀ e ∈ history exec (run State.empty [demoInitialize 30]) (demoExecuted .standard),
      ¬ e.invocation.call.Drops 0 := by decide +kernel
  have hvotes : ((run (run State.empty [demoInitialize 30]) [demoCreate .standard,
      demoCall 4 (.vote demoBob 0 true)]).proposals.lookup 0).map
        (fun p => (p.yesVotes, p.noVotes)) = some (100, 0) := by decide +kernel
  have hquorum : (run (run State.empty [demoInitialize 30]) [demoCreate .standard,
      demoCall 4 (.vote demoBob 0 true)]).quorum = some 50 := by decide +kernel
  have hqueue : ¬ QueuesMissed 0 (run (run State.empty [demoInitialize 30]) [demoCreate .standard,
      demoCall 4 (.vote demoBob 0 true)]) (demoCall 13 (.queueProposal 0)) := by
    rintro ⟨_, p, quorum, hp, hsome, _, _, hmissed⟩
    rw [hquorum, Option.some.injEq] at hsome
    rw [hp, Option.map_some, Option.some.injEq, Prod.mk.injEq] at hvotes
    omega
  refine ⟨(hsettlement.mpr ⟨fun e he hf => hdrops e he hf.1, ?_⟩).1, by decide +kernel⟩
  exact ⟨fun h => (by cases h.1), fun h => (by cases h.1), fun h => absurd h hqueue,
    fun h => (by cases h.1), trivial⟩

/-- Vetoed and withdrawn proposals are cancelled and their bonds paid to nobody; the queue refuses a
    proposal without votes and slashes nothing. -/
theorem bond_kept :
    let vetoed := run State.empty (demoInitialize 30 :: demoPassed .standard ++ [demoCall 14 (.vetoProposal 0)])
    let withdrawn := run State.empty
      [demoInitialize 30, demoCreate .standard, demoCall 3 (.proposerCancelProposal demoCarol 0)]
    let missed := run State.empty [demoInitialize 30, demoCreate .standard]
    let queued := run State.empty
      [demoInitialize 30, demoCreate .standard, demoCall 13 (.queueProposal 0)]
    ((vetoed.proposals.lookup 0).map (fun p => (p.state, p.bondAmount)) = some (.cancelled, 30) ∧
      payouts 0 vetoed.transfers = []) ∧
    ((withdrawn.proposals.lookup 0).map (fun p => (p.state, p.bondAmount)) = some (.cancelled, 30) ∧
      payouts 0 withdrawn.transfers = []) ∧
    (missed.proposals.lookup 0).map (fun p => (p.state, p.deadline, p.yesVotes + p.noVotes)) =
      some (.active, 12, 0) ∧ missed.quorum = some 50 ∧ payouts 0 queued.transfers = [] := by
  decide +kernel

end SorobanKit.Dao
