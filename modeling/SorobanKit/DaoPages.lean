import SorobanKit.CommonPageReads
import SorobanKit.DaoMoves

set_option autoImplicit false

/-!
# Pages of proposals

`get_proposals` gives the proposals in a state the caller asks for, or all of them, a page at a
time. A proposal may change its state between two calls; it never loses its number.
-/
namespace SorobanKit.Dao
open CommonPages CommonPageReads HostBalances HostInteger HostInvocation HostRuns

def maxPageSize : ℕ := 50

/-- The proposal of that number, if it is in the state asked for. -/
def proposalIn (s : State) (state : Option ProposalState) (proposalId : ℕ) : Option Proposal :=
  (s.proposals.lookup proposalId).filter fun p => decide (∀ asked ∈ state, p.state = asked)

def proposalView (s : State) (state : Option ProposalState) : View Proposal where
  count := s.proposalCount.getD 0
  find := proposalIn s state

def getProposals (cursor limit : ℕ) (state : Option ProposalState) (s : State) :
    Option (Page Proposal ℕ) :=
  (proposalView s state).page cursor limit maxPageSize

section Pages
variable {dao : Deployment} {c : Config} {i : Invocation dao} {s t : State}

/-- Calls of `get_proposals` in a run of the contract, each with a filter of its own. -/
def readProposals (s : State) (reads : List (PageRead (Invocation dao) (Option ProposalState))) :
    Option (List (Reading State (Option ProposalState) Proposal)) :=
  readAlong exec proposalView maxPageSize s 0 reads

theorem proposalIn_eq_some {state : Option ProposalState} {pid : ℕ} {p : Proposal} :
    proposalIn s state pid = some p ↔
      s.proposals.lookup pid = some p ∧ ∀ asked ∈ state, p.state = asked := by
  rw [proposalIn, Option.filter_eq_some_iff, decide_eq_true_eq]

theorem exec_keeps_proposal {pid : ℕ} (hs : Ready c s) (h : exec i s = .ok t)
    (hp : (s.proposals.lookup pid).isSome) : (t.proposals.lookup pid).isSome := by
  have hwrite : ∀ q r, (((s.setProposal q r).proposals).lookup pid).isSome := by
    intro q r
    rw [State.setProposal, lookup_insert_ite]
    split
    · rfl
    · exact hp
  cases exec_move hs h with
  | created p hcall hauth hcount hstate hyes hno hbond hsupply h =>
    rw [h]
    exact hwrite _ _
  | voted voter q p own weight support hauth hopen hown hweight h =>
    rw [h]
    exact hwrite _ _
  | locked voter q p own hcall hauth hopen hown h =>
    rw [h]
    exact hp
  | unlocked voter q p amount hcall hp' hlate hlock h =>
    rw [h]
    exact hp
  | arranged hcall h =>
    rw [h]
    exact hp
  | queued q p hcall hp' hstate hlate hpassed h =>
    rw [h]
    exact hwrite _ _
  | executed q p hp' hcall h =>
    rw [h]
    exact hwrite _ _
  | cancelled q p purpose target hp' hstate hcall h =>
    rw [h]
    exact hwrite _ _
  | dropped q p hp' hcall h =>
    rw [h]
    exact hwrite _ _

theorem create_bounded {env : Env} {proposer : Address} {title description : String}
    {actionTarget : Option Address} {actionFunction : Option Symbol} {actionArgs : Option (List Val)}
    {votingType : VotingType} {tier : ProposalTier} {choices : List Symbol}
    (h : createProposalWithConfig dao env proposer title description actionTarget actionFunction
      actionArgs votingType tier choices s = .ok t) : t.proposalCount.getD 0 ≤ u32Max := by
  simp only [createProposalWithConfig, bind_eq_ok, unwrap_eq_ok, checkedAddU32_eq_some,
    pure_eq_ok] at h
  obtain ⟨_, _, _, _, _, _, _, _, _, _, _, _, _, _, _, _, _, ⟨hbound, rfl⟩, rfl⟩ := h
  exact hbound

/-- Proposals are numbered as `Ready` says, and the numbers fit the counter. -/
structure Listed (c : Config) (s : State) : Prop extends Ready c s where
  bounded : s.proposalCount.getD 0 ≤ u32Max

theorem Listed.step (hs : Listed c s) (h : exec i s = .ok t) : Listed c t := by
  refine ⟨exec_ready hs.toReady h, ?_⟩
  have hsame : ∀ u : State, u.proposalCount = s.proposalCount → u.proposalCount.getD 0 ≤ u32Max := by
    intro u hu
    rw [hu]
    exact hs.bounded
  cases exec_move hs.toReady h with
  | created p hcall hauth hcount hstate hyes hno hbond hsupply hresult =>
    cases hwhich : i.call with
    | createProposal =>
      simp only [exec, hwhich, createProposal] at h
      exact create_bounded h
    | createProposalWithConfig =>
      simp only [exec, hwhich] at h
      exact create_bounded h
    | _ => simp [hwhich, Call.Proposes] at hcall
  | voted voter q p own weight support hauth hopen hown hweight h => exact hsame t (by rw [h]; rfl)
  | locked voter q p own hcall hauth hopen hown h => exact hsame t (by rw [h]; rfl)
  | unlocked voter q p amount hcall hp' hlate hlock h => exact hsame t (by rw [h])
  | arranged hcall h => exact hsame t (by rw [h])
  | queued q p hcall hp' hstate hlate hpassed h => exact hsame t (by rw [h]; rfl)
  | executed q p hp' hcall h => exact hsame t (by rw [h]; rfl)
  | cancelled q p purpose target hp' hstate hcall h => exact hsame t (by rw [h]; rfl)
  | dropped q p hp' hcall h => exact hsame t (by rw [h]; rfl)

theorem Listed.numbered (hs : Listed c s) (state : Option ProposalState) :
    (proposalView s state).Numbered Proposal.id where
  bounded := hs.bounded
  below pid p hp := by
    obtain ⟨n, hn, hbelow⟩ := hs.counted
    change pid < s.proposalCount.getD 0
    rw [hn]
    exact hbelow pid p (proposalIn_eq_some.mp hp).1
  named pid p hp := hs.ids pid p (proposalIn_eq_some.mp hp).1

end Pages

/-- Following the cursors of `get_proposals` from any state of a run, with any invocations between
    the calls, any limits and any filters: the calls return; numbers ascend, so no proposal is read
    twice; a proposal read is the stored one, in the state asked for. When the end is reached, each
    proposal that met the filter of every call has been read, and without filters each that was made
    before the first call. -/
theorem proposals_read_once (dao : Deployment) (admin token : Address) (votingPeriod : ℕ)
    (quorum proposalBond : ℤ) (minQuorumBps maxQuorumBps quorumBps executionDelay : ℕ)
    (init : Invocation dao) (s : State)
    (hcall : init.call = .initializeDao admin token votingPeriod quorum proposalBond minQuorumBps
      maxQuorumBps quorumBps executionDelay)
    (hinit : exec init State.empty = .ok s) (is : List (Invocation dao))
    (reads : List (PageRead (Invocation dao) (Option ProposalState))) :
    ∃ readings, readProposals (run s is) reads = some readings ∧
      ((readings.flatMap fun r => r.page.items).map Proposal.id).Pairwise (· < ·) ∧
      (∀ r ∈ readings, ∀ p ∈ r.page.items, r.state.proposals.lookup p.id = some p ∧
        ∀ asked ∈ r.query, p.state = asked) ∧
      ((∃ r ∈ readings, r.page.nextCursor = none) →
        (∀ pid, (∀ r ∈ readings, (proposalIn r.state r.query pid).isSome) →
          ∃ r ∈ readings, ∃ p ∈ r.page.items, p.id = pid) ∧
        ((∀ read ∈ reads, read.query = none) → ∀ pid, pid ∈ (run s is).proposals →
          ∃ r ∈ readings, ∃ p ∈ r.page.items, p.id = pid)) := by
  simp only [exec, hcall] at hinit
  obtain ⟨_, hready, _⟩ := initializeDao_ready hinit
  have hfirst : Listed ⟨admin, token, quorum, proposalBond, quorumBps, executionDelay⟩ s := by
    refine ⟨hready, ?_⟩
    simp only [initializeDao, bind_eq_ok, pure_eq_ok] at hinit
    obtain ⟨_, _, _, _, _, _, _, _, rfl⟩ := hinit
    exact Nat.zero_le _
  have hstep : ∀ u (i : Invocation dao) v,
      Listed ⟨admin, token, quorum, proposalBond, quorumBps, executionDelay⟩ u → exec i u = .ok v →
      Listed ⟨admin, token, quorum, proposalBond, quorumBps, executionDelay⟩ v :=
    fun _ _ _ hu h => hu.step h
  have hs := run_invariant hstep hfirst is
  have hview : ∀ u state, Listed ⟨admin, token, quorum, proposalBond, quorumBps, executionDelay⟩ u →
      (proposalView u state).Numbered Proposal.id := fun _ state hu => hu.numbered state
  obtain ⟨readings, hreadings, honce⟩ :=
    readAlong_reads hstep hview (by decide : 1 ≤ maxPageSize) hs 0 reads
  refine ⟨readings, hreadings, honce.ascending, ?_, fun hend => ⟨?_, ?_⟩⟩
  · intro r hr p hp
    exact proposalIn_eq_some.mp (honce.found r hr p hp).2
  · intro pid hactive
    exact honce.complete hend pid (Nat.zero_le _) hactive
  · intro hunfiltered pid hpid
    refine honce.complete hend pid (Nat.zero_le _) fun r hr => ?_
    obtain ⟨⟨_, hkept⟩, read, hread, hquery⟩ := readAlong_mem
      (J := fun u => Listed ⟨admin, token, quorum, proposalBond, quorumBps, executionDelay⟩ u ∧
        (u.proposals.lookup pid).isSome)
      (fun _ _ _ hu h => ⟨hu.1.step h, exec_keeps_proposal hu.1.toReady h hu.2⟩)
      ⟨hs, Finmap.lookup_isSome.mpr hpid⟩ hreadings r hr
    obtain ⟨p, hp⟩ := Option.isSome_iff_exists.mp hkept
    have hfound : proposalIn r.state r.query pid = some p := by
      rw [proposalIn_eq_some, hquery, hunfiltered read hread]
      exact ⟨hp, by simp⟩
    change (proposalIn r.state r.query pid).isSome
    rw [hfound]
    rfl

/-- One call before a vote on the proposal and one after it. -/
def demoPageReads : List (PageRead (Invocation demoDao) (Option ProposalState)) :=
  [⟨[], none, 1⟩, ⟨[demoCall 3 (.vote demoBob 0 true)], none, 1⟩]

theorem proposals_read_once_demo :
    ((run (run State.empty [demoInitialize 0]) [demoCreate .standard]).proposals.lookup 0).isSome ∧
    ∃ readings, readProposals (run (run State.empty [demoInitialize 0]) [demoCreate .standard])
        demoPageReads = some readings ∧
      ((readings.flatMap fun r => r.page.items).map Proposal.id).Pairwise (· < ·) := by
  refine ⟨by decide +kernel, ?_⟩
  obtain ⟨readings, hreadings, hascending, _⟩ := proposals_read_once demoDao demoAdmin demoToken 10 50
    0 0 0 0 5 (demoInitialize 0) (run State.empty [demoInitialize 0]) rfl rfl [demoCreate .standard]
    demoPageReads
  exact ⟨readings, hreadings, hascending⟩

end SorobanKit.Dao
