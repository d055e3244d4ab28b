import SorobanKit.DaoLifecycle

set_option autoImplicit false

/-!
# Dispatch of the payloads

What `queue_proposal` checked is frozen until `execute_proposal` runs, because votes need an `Active`
proposal and no closed proposal opens again. The ledger from which a proposal may be executed is the
deadline and `ExecutionDelay`, while every tier has a delay of its own.
-/
namespace SorobanKit.Dao
open HostBalances HostInvocation HostRuns HostTransfers

/-- The queue is called for a proposal whose tier asks for a longer delay than the queue sets. -/
def QueuesShort (pid : ℕ) (s : State) (call : Call) : Prop :=
  call = .queueProposal pid ∧ ∃ p ∈ s.proposals.lookup pid,
    s.executionDelay.getD 0 < tierDelay s p.tier

instance (pid : ℕ) (s : State) (call : Call) : Decidable (QueuesShort pid s call) :=
  inferInstanceAs (Decidable (call = .queueProposal pid ∧ ∃ p ∈ s.proposals.lookup pid, _))

def Config.tierDelay (c : Config) : ProposalTier → ℕ
  | .standard => c.executionDelay
  | .financial => defaultFinancialDelay
  | .critical => defaultCriticalDelay

theorem Ready.tierDelay_eq {c : Config} {s : State} (hs : Ready c s) (tier : ProposalTier) :
    tierDelay s tier = c.tierDelay tier := by
  cases tier with
  | standard => rw [tierDelay, hs.standard_eq, Option.getD_some, Config.tierDelay]
  | financial => rw [tierDelay, hs.financial_eq, Option.getD_some, Config.tierDelay]
  | critical => rw [tierDelay, hs.critical_eq, Option.getD_some, Config.tierDelay]

/-- What is known of a queued proposal at ledger `now`. -/
structure Waiting (c : Config) (now : ℕ) (p : Proposal) : Prop where
  late : p.deadline < now
  passed : Passed c p
  eta_eq : p.executionEta = p.deadline + c.executionDelay
  delay : c.tierDelay p.tier ≤ c.executionDelay

structure Tallied (p : Proposal) : Prop where
  yes_nonneg : 0 ≤ p.yesVotes
  no_nonneg : 0 ≤ p.noVotes
  supply_nonneg : 0 ≤ p.totalSupplyAtCreation

section Invariant
variable {dao : Deployment}

structure Guarded (c : Config) (pid now : ℕ) (past : List (Entry State (Invocation dao)))
    (s : State) : Prop where
  ready : Ready c s
  tallied : ∀ p, s.proposals.lookup pid = some p → Tallied p
  pending : (∀ p, s.proposals.lookup pid = some p → p.state = .active ∨ p.state = .queued) →
    actions pid s.dispatched = []
  once : (actions pid s.dispatched).length ≤ 1
  waiting : ∀ p, s.proposals.lookup pid = some p → p.state = .queued → Waiting c now p
  cancelled : (∃ e ∈ past, e.invocation.call.Cancels pid) →
    ∃ p, s.proposals.lookup pid = some p ∧ p.state = .cancelled

variable {c : Config} {i : Invocation dao} {s t : State} {pid : ℕ}
  {past : List (Entry State (Invocation dao))}

theorem Guarded.later {now later : ℕ} (hs : Guarded c pid now past s) (hle : now ≤ later) :
    Guarded c pid later past s :=
  { hs with
    waiting := fun p hp hstate =>
      let hw := hs.waiting p hp hstate
      { hw with late := lt_of_lt_of_le hw.late hle } }

theorem cap_nonneg {p : Proposal} {amount : ℤ} (hsupply : 0 ≤ p.totalSupplyAtCreation)
    (hamount : 0 ≤ amount) : 0 ≤ p.cap amount := by
  unfold Proposal.cap
  split <;> omega

theorem Weight.nonneg {voter : Address} {p : Proposal} {own weight : ℤ}
    (hweigh : ∀ type x, 0 ≤ x → 0 ≤ dao.applyVotingType type x)
    (hlocks : NonnegEntries s.lockedTokens) (hsupply : 0 ≤ p.totalSupplyAtCreation) (hown : 0 < own)
    (h : Weight dao i.call voter pid s p own weight) : 0 ≤ weight := by
  cases h with
  | alone base hcall hpos hbase => exact hweigh _ _ (cap_nonneg hsupply (le_of_lt hpos))
  | delegated support delegators hcall hlocked =>
    have hdelegated : 0 ≤ delegatedWeight pid delegators s := by
      apply List.sum_nonneg
      intro x hx
      obtain ⟨d, _, rfl⟩ := List.mem_map.mp hx
      exact hlocks.entry_nonneg _
    exact cap_nonneg hsupply (by omega)

theorem Tallied.withVotes {p : Proposal} (hp : Tallied p) {weight : ℤ} (hweight : 0 ≤ weight)
    (support : Bool) : Tallied (p.withVotes support weight) := by
  obtain ⟨hyes, hno, hsupply⟩ := hp
  cases support with
  | true => exact ⟨add_nonneg hyes hweight, hno, hsupply⟩
  | false => exact ⟨hyes, add_nonneg hno hweight, hsupply⟩

theorem cancels_snoc (past : List (Entry State (Invocation dao))) (s : State) (i : Invocation dao)
    (t : State) : (∃ e ∈ past ++ [⟨s, i, t⟩], e.invocation.call.Cancels pid) ↔
      (∃ e ∈ past, e.invocation.call.Cancels pid) ∨ i.call.Cancels pid := by
  simp [or_and_right, exists_or]

theorem Guarded.untouched {now : ℕ} (hs : Guarded c pid now past s) (hready : Ready c t)
    (hcall : ¬ i.call.Cancels pid) (h : Effect pid s t (s.proposals.lookup pid) [] []) :
    Guarded c pid now (past ++ [⟨s, i, t⟩]) t := by
  have hact : actions pid t.dispatched = actions pid s.dispatched := by
    rw [h.act_eq, List.append_nil]
  have hlookup := h.lookup_eq
  refine ⟨hready, ?_, ?_, ?_, ?_, ?_⟩
  · rw [hlookup]
    exact hs.tallied
  · rw [hlookup, hact]
    exact hs.pending
  · rw [hact]
    exact hs.once
  · rw [hlookup]
    exact hs.waiting
  · rw [cancels_snoc, hlookup]
    rintro (hpast | hcancel)
    · exact hs.cancelled hpast
    · exact absurd hcancel hcall

theorem Guarded.created {now : ℕ} (hs : Guarded c pid now past s) (hready : Ready c t) {p : Proposal}
    (hcall : ¬ i.call.Cancels pid) (hnone : s.proposals.lookup pid = none) (hstate : p.state = .active)
    (htallied : Tallied p) (h : Effect pid s t (some p) [] []) :
    Guarded c pid now (past ++ [⟨s, i, t⟩]) t := by
  have hact : actions pid t.dispatched = [] := by
    rw [h.act_eq, List.append_nil]
    refine hs.pending fun r hr => ?_
    rw [hnone] at hr
    cases hr
  refine ⟨hready, fun r hr => ?_, fun _ => hact, by rw [hact]; exact Nat.zero_le 1, fun r hr hq => ?_,
    ?_⟩
  · rw [h.lookup_eq] at hr
    cases hr
    exact htallied
  · rw [h.lookup_eq] at hr
    cases hr
    rw [hstate] at hq
    cases hq
  · rw [cancels_snoc]
    rintro (hpast | hcancel)
    · obtain ⟨r, hr, _⟩ := hs.cancelled hpast
      rw [hnone] at hr
      cases hr
    · exact absurd hcancel hcall

theorem Guarded.next {now : ℕ} (hs : Guarded c pid now past s) (hready : Ready c t) {p q : Proposal}
    {pay : List (Transfer Purpose)} {act : List Dispatch} (hp : s.proposals.lookup pid = some p)
    (hlive : p.state = .active ∨ p.state = .queued) (h : Effect pid s t (some q) pay act)
    (htallied : Tallied q) (hkept : q.state = .active ∨ q.state = .queued → act = [])
    (hlength : act.length ≤ 1) (hwaiting : q.state = .queued → Waiting c now q)
    (hcancels : i.call.Cancels pid → q.state = .cancelled) :
    Guarded c pid now (past ++ [⟨s, i, t⟩]) t := by
  have hnone : actions pid s.dispatched = [] := by
    refine hs.pending fun r hr => ?_
    rw [hp] at hr
    cases hr
    exact hlive
  have hact := h.act_eq
  rw [hnone, List.nil_append] at hact
  refine ⟨hready, fun r hr => ?_, fun hpending => ?_, by rw [hact]; exact hlength, fun r hr => ?_, ?_⟩
  · rw [h.lookup_eq] at hr
    cases hr
    exact htallied
  · rw [hact]
    exact hkept (hpending q h.lookup_eq)
  · rw [h.lookup_eq] at hr
    cases hr
    exact hwaiting
  · rw [cancels_snoc]
    rintro (hpast | hcancel)
    · obtain ⟨r, hr, hstate⟩ := hs.cancelled hpast
      rw [hp] at hr
      cases hr
      rcases hlive with hlive | hlive <;> rw [hlive] at hstate <;> cases hstate
    · exact ⟨q, h.lookup_eq, hcancels hcancel⟩

theorem actionOf_length (pid : ℕ) (p : Proposal) : (actionOf pid p).length ≤ 1 := by
  unfold actionOf
  split <;> simp

theorem exec_guarded (hs : Guarded c pid i.sequence past s)
    (hweigh : ∀ type x, 0 ≤ x → 0 ≤ dao.applyVotingType type x)
    (hsupply : 0 ≤ i.totalSupply c.token) (hshort : ¬ QueuesShort pid s i.call)
    (h : exec i s = .ok t) : Guarded c pid i.sequence (past ++ [⟨s, i, t⟩]) t := by
  have hready := exec_ready hs.ready h
  cases exec_change hs.ready pid h with
  | untouched hcall h => exact hs.untouched hready hcall h
  | created p hcall hnone hstate hyes hno hsupplied h =>
    exact hs.created hready hcall hnone hstate
      ⟨by rw [hyes], by rw [hno], by rw [hsupplied]; exact hsupply⟩ h
  | voted voter p own weight support hcall hp hstate hown hweight h =>
    have htallied := hs.tallied p hp
    have hlocks := (hs.ready.lock dao.house c.token pid voter hown).locks_nonneg
    have hnonneg := hweight.nonneg hweigh hlocks htallied.supply_nonneg hown
    have hsame := withVotes_state p support weight
    rw [hstate] at hsame
    refine hs.next hready hp (.inl hstate) h (htallied.withVotes hnonneg support) (fun _ => rfl)
      (Nat.zero_le 1) (fun hq => ?_) (fun hcancel => absurd hcancel hcall)
    rw [hsame] at hq
    cases hq
  | queued p hcall hp hstate hlate hpassed h =>
    have hdelay : c.tierDelay p.tier ≤ c.executionDelay := by
      by_contra hlong
      refine hshort ⟨hcall, p, hp, ?_⟩
      rw [hs.ready.tierDelay_eq, hs.ready.delay_eq, Option.getD_some]
      exact not_le.mp hlong
    obtain ⟨hyes, hno, hsupplied⟩ := hs.tallied p hp
    refine hs.next hready hp (.inl hstate) h ⟨hyes, hno, hsupplied⟩ (fun _ => rfl) (Nat.zero_le 1)
      (fun _ => ⟨hlate, ⟨hpassed.majority, hpassed.quorum, hpassed.participation⟩, rfl, hdelay⟩)
      fun hcancel => ?_
    rw [hcall] at hcancel
    exact hcancel.elim
  | executed p hp hcall h =>
    have hlive : p.state = .active ∨ p.state = .queued := by
      rcases hcall with ⟨_, hstate, _⟩ | ⟨_, _, _, _, hstate⟩
      · exact .inr hstate
      · exact hstate
    have hcancels : ¬ i.call.Cancels pid := by
      rcases hcall with ⟨hcall, _⟩ | ⟨_, hcall, _⟩ <;> rw [hcall] <;> exact id
    obtain ⟨hyes, hno, hsupplied⟩ := hs.tallied p hp
    refine hs.next hready hp hlive h ⟨hyes, hno, hsupplied⟩ (fun hq => ?_) (actionOf_length pid p)
      (fun hq => by cases hq) (fun hcancel => absurd hcancel hcancels)
    rcases hq with hq | hq <;> cases hq
  | cancelled p purpose target hp hstate hcall h =>
    obtain ⟨hyes, hno, hsupplied⟩ := hs.tallied p hp
    exact hs.next hready hp (.inl hstate) h ⟨hyes, hno, hsupplied⟩ (fun _ => rfl) (Nat.zero_le 1)
      (fun hq => by cases hq) (fun _ => rfl)
  | dropped p hp hcall h =>
    have hlive : p.state = .active ∨ p.state = .queued := by
      rcases hcall with ⟨_, hstate⟩ | ⟨_, hstate⟩
      · exact .inr hstate
      · exact .inl hstate
    obtain ⟨hyes, hno, hsupplied⟩ := hs.tallied p hp
    exact hs.next hready hp hlive h ⟨hyes, hno, hsupplied⟩ (fun _ => rfl) (Nat.zero_le 1)
      (fun hq => by cases hq) (fun _ => rfl)

theorem dispatch_guarded (hs : Guarded c pid i.sequence past s) (h : exec i s = .ok t)
    (hact : actions pid t.dispatched ≠ actions pid s.dispatched) :
    ∃ p, s.proposals.lookup pid = some p ∧
      actions pid t.dispatched = actions pid s.dispatched ++ actionOf pid p ∧
      ((i.call = .executeProposal pid ∧ p.state = .queued ∧ p.executionEta ≤ i.sequence) ∨
        ∃ council, i.call = .emergencyExecuteProposal council pid ∧
          s.securityCouncil = some council ∧ council ∈ i.auths) := by
  cases exec_change hs.ready pid h with
  | untouched _ h | created _ _ _ _ _ _ _ h | voted _ _ _ _ _ _ _ _ _ _ h | queued _ _ _ _ _ _ h
  | cancelled _ _ _ _ _ _ h | dropped _ _ _ h => exact absurd (by rw [h.act_eq, List.append_nil]) hact
  | executed p hp hcall h =>
    refine ⟨p, hp, h.act_eq, ?_⟩
    rcases hcall with hcall | ⟨council, hcall, hcouncil, hauth, _⟩
    · exact .inl hcall
    · exact .inr ⟨council, hcall, hcouncil, hauth⟩

end Invariant

theorem initializeDao_guarded {dao : Deployment} {env : Env} {admin token : Address}
    {votingPeriod : ℕ} {quorum proposalBond : ℤ} {minQuorumBps maxQuorumBps quorumBps executionDelay : ℕ}
    {s : State} (pid now : ℕ) (h : initializeDao env admin token votingPeriod quorum proposalBond
      minQuorumBps maxQuorumBps quorumBps executionDelay State.empty = .ok s) :
    Guarded ⟨admin, token, quorum, proposalBond, quorumBps, executionDelay⟩ pid now
      ([] : List (Entry State (Invocation dao))) s := by
  obtain ⟨_, hready, hproposals, _, _, hdispatched⟩ := initializeDao_ready h
  refine ⟨hready, fun p hp => ?_, fun _ => by rw [hdispatched]; rfl, by rw [hdispatched]; exact Nat.zero_le 1,
    fun p hp => ?_, ?_⟩
  · simp [hproposals] at hp
  · simp [hproposals] at hp
  · rintro ⟨e, he, _⟩
    cases he

/-- In every run at non-decreasing ledgers that queues no proposal whose tier asks for more than
    `ExecutionDelay`: a payload is dispatched at most once, and by whom it is not the security council
    only after a vote that met the majority and both quorums, with the deadline and the delay of the
    tier over and no veto or cancellation before. -/
theorem dispatch_safe (dao : Deployment)
    (hweigh : ∀ type x, 0 ≤ x → 0 ≤ dao.applyVotingType type x) (admin token : Address)
    (votingPeriod : ℕ) (quorum proposalBond : ℤ)
    (minQuorumBps maxQuorumBps quorumBps executionDelay : ℕ) (i₀ : Invocation dao) (s : State)
    (hcall : i₀.call = .initializeDao admin token votingPeriod quorum proposalBond minQuorumBps
      maxQuorumBps quorumBps executionDelay)
    (hinit : exec i₀ State.empty = .ok s) (is : List (Invocation dao))
    (htime : (i₀ :: is).Pairwise (fun i j => i.sequence ≤ j.sequence))
    (hsupply : ∀ i ∈ is, 0 ≤ i.totalSupply token) (pid : ℕ)
    (hshort : ∀ e ∈ history exec s is, ¬ QueuesShort pid e.before e.invocation.call) :
    (actions pid (run s is).dispatched).length ≤ 1 ∧
      ∀ past e later, history exec s is = past ++ e :: later →
        actions pid e.after.dispatched ≠ actions pid e.before.dispatched →
        (∃ council, e.invocation.call = .emergencyExecuteProposal council pid ∧
          e.before.securityCouncil = some council ∧ council ∈ e.invocation.auths) ∨
        e.invocation.call = .executeProposal pid ∧
          (∀ x ∈ past, ¬ x.invocation.call.Cancels pid) ∧
          ∃ p, e.before.proposals.lookup pid = some p ∧ p.deadline < e.invocation.sequence ∧
            p.noVotes < p.yesVotes ∧ quorum ≤ p.yesVotes + p.noVotes ∧
            (quorumBps : ℤ) * p.totalSupplyAtCreation ≤ (p.yesVotes + p.noVotes) * 10000 ∧
            p.deadline + tierDelay e.before p.tier ≤ e.invocation.sequence := by
  let c : Config := ⟨admin, token, quorum, proposalBond, quorumBps, executionDelay⟩
  have hs : Guarded c pid i₀.sequence ([] : List (Entry State (Invocation dao))) s := by
    unfold exec at hinit
    rw [hcall] at hinit
    exact initializeDao_guarded pid i₀.sequence hinit
  obtain ⟨hfirst, htime⟩ := List.pairwise_cons.mp htime
  have halong := (along_of_history (Q := fun s (i : Invocation dao) => ¬ QueuesShort pid s i.call)
    hshort).and_forall hsupply
  have hlater : ∀ now later (past : List (Entry State (Invocation dao))) s, now ≤ later →
      Guarded c pid now past s → Guarded c pid later past s :=
    fun _ _ _ _ hle hs => hs.later hle
  have hstep : ∀ (past : List (Entry State (Invocation dao))) s (i : Invocation dao) t,
      Guarded c pid i.sequence past s →
      (∀ t, exec i s = .ok t → ¬ QueuesShort pid s i.call) ∧ 0 ≤ i.totalSupply token →
      exec i s = .ok t → Guarded c pid i.sequence (past ++ [⟨s, i, t⟩]) t :=
    fun _ _ _ t hs hi hok => exec_guarded hs hweigh hi.2 (hi.1 t hok) hok
  refine ⟨?_, fun past e later hsplit hact => ?_⟩
  · obtain ⟨_, hrun⟩ := history_invariant_timed (fun i : Invocation dao => i.sequence)
      (I := fun now past s => Guarded c pid now past s) hlater hstep hs halong hfirst htime
    exact hrun.once
  · obtain ⟨hbefore, _, hok⟩ := history_split_timed (fun i : Invocation dao => i.sequence)
      (I := fun now past s => Guarded c pid now past s) hlater hstep hs halong hfirst htime hsplit
    obtain ⟨p, hp, _, hby | hby⟩ := dispatch_guarded hbefore hok hact
    · obtain ⟨hexecute, hstate, heta⟩ := hby
      have hwaiting := hbefore.waiting p hp hstate
      have htallied := hbefore.tallied p hp
      have hdelay := hwaiting.delay
      refine .inr ⟨hexecute, fun x hx hcancel => ?_, p, hp, hwaiting.late, hwaiting.passed.majority,
        hwaiting.passed.quorum, ?_, ?_⟩
      · obtain ⟨q, hq, hcancelled⟩ := hbefore.cancelled ⟨x, hx, hcancel⟩
        rw [hp] at hq
        cases hq
        rw [hstate] at hcancelled
        cases hcancelled
      · rcases Nat.eq_zero_or_pos quorumBps with hzero | hpos
        · have hyes := htallied.yes_nonneg
          have hno := htallied.no_nonneg
          rw [hzero, Nat.cast_zero, zero_mul]
          omega
        · exact hwaiting.passed.participation hpos
      · rw [hbefore.ready.tierDelay_eq]
        rw [hwaiting.eta_eq] at heta
        omega
    · exact .inl hby

theorem dispatch_safe_demo :
    (actions 0 (run (run State.empty [demoInitialize 0]) (demoExecuted .standard)).dispatched).length ≤
        1 ∧
      (run (run State.empty [demoInitialize 0]) (demoExecuted .standard)).dispatched.map
        Dispatch.proposalId = [0] := by
  have hweigh : ∀ type x, 0 ≤ x → 0 ≤ demoDao.applyVotingType type x := by
    intro type x hx
    cases type with
    | linear => exact hx
    | quadratic => exact Int.sqrt_nonneg x
  have hsafe := dispatch_safe demoDao hweigh demoAdmin demoToken 10 50 0 0 0 0 5 (demoInitialize 0)
    (run State.empty [demoInitialize 0]) rfl rfl (demoExecuted .standard) (by decide)
    (by simp [demoExecuted, demoPassed, demoCreate, demoCall]) 0 (by decide +kernel)
  exact ⟨hsafe.1, by decide +kernel⟩

/-- A critical proposal is dispatched five ledgers after its deadline. -/
theorem critical_tier_not_delayed :
    let before := run State.empty (demoInitialize 0 :: demoPassed .critical)
    let after := run State.empty (demoInitialize 0 :: demoExecuted .critical)
    (before.proposals.lookup 0).map (fun p => (p.tier, p.deadline)) = some (.critical, 12) ∧
      tierDelay before .critical = 120960 ∧ before.dispatched = [] ∧
      after.dispatched.map Dispatch.proposalId = [0] := by
  decide +kernel

end SorobanKit.Dao
