import SorobanKit.DaoMoves
import SorobanKit.HostLeaders

set_option autoImplicit false

/-!
# The choices of a proposal

A proposal may name choices, and a voter then votes for one of them. The tally of a choice is what
the ballots for it weigh, each voter has one ballot, and the winner is the first of the choices with
the greatest tally. A plain vote in favour counts for no choice.
-/
namespace SorobanKit.Dao
open HostBalances HostInteger HostInvocation HostLeaders HostRuns HostTransfers

structure ChoiceTally where
  choice : Symbol
  votes : ℤ
  deriving DecidableEq, Repr

def getProposalChoiceTallies (proposalId : ℕ) (s : State) : List ChoiceTally :=
  match s.proposals.lookup proposalId with
  | none => []
  | some proposal =>
    proposal.choices.map fun choice => ⟨choice, entry s.choiceTally (proposalId, choice)⟩

/-- Of two tallies with as many votes the earlier one stays. -/
def keepLarger (best : Option ChoiceTally) (tally : ChoiceTally) : Option ChoiceTally :=
  if tally.votes ≤ 0 then best
  else
    match best with
    | some b => if tally.votes ≤ b.votes then best else some tally
    | none => some tally

def getProposalWinner (proposalId : ℕ) (s : State) : Option Symbol :=
  ((getProposalChoiceTallies proposalId s).foldl keepLarger none).map ChoiceTally.choice

section Winner
variable {pid : ℕ} {s t : State}

def choicesOf (pid : ℕ) (s : State) : List Symbol :=
  ((s.proposals.lookup pid).map Proposal.choices).getD []

theorem choiceTallies_eq (pid : ℕ) (s : State) : getProposalChoiceTallies pid s =
    (choicesOf pid s).map fun choice => ⟨choice, entry s.choiceTally (pid, choice)⟩ := by
  unfold getProposalChoiceTallies choicesOf
  cases s.proposals.lookup pid <;> rfl

theorem keepLarger_eq : keepLarger = keepBetter ChoiceTally.votes 0 := by
  funext best tally
  cases best <;> rfl

theorem getProposalWinner_eq (pid : ℕ) (s : State) : getProposalWinner pid s =
    leader (fun choice => entry s.choiceTally (pid, choice)) 0 (choicesOf pid s) := by
  have hmap := leader_map ChoiceTally.votes 0
    (fun choice => ⟨choice, entry s.choiceTally (pid, choice)⟩) (choicesOf pid s)
  unfold getProposalWinner
  rw [choiceTallies_eq, keepLarger_eq]
  change (leader ChoiceTally.votes 0 _).map _ = _
  rw [hmap, Option.map_map]
  exact Option.map_id_apply

end Winner

section Steps
variable {dao : Deployment} {c : Config} {i : Invocation dao} {pid : ℕ} {s t : State}

/-- A vote for a choice, with everything it checked. -/
structure Balloted (env : Env) (voter : Address) (pid : ℕ) (choice : Symbol) (s t : State) : Prop where
  proposal : ∃ p, Open env.sequence s pid p ∧ choice ∈ p.choices
  signed : voter ∈ env.auths
  fresh : (pid, voter) ∉ s.votes
  tally : t.choiceTally = s.choiceTally.insert (pid, choice)
    (entry s.choiceTally (pid, choice) + entry t.votes (pid, voter))

theorem voteChoice_ok (hs : Ready c s) {env : Env} {voter : Address} {choice : Symbol} {amount : ℤ}
    (h : voteChoice dao env voter pid choice amount s = .ok t) :
    Balloted env voter pid choice s t := by
  simp only [voteChoice, bind_eq_ok, requireAuth_eq_ok, rejectIf_eq_ok, not_not, okOr_eq_ok,
    checkedAdd_eq_some] at h
  obtain ⟨_, _, _, hauth, p, hopen, _, hchoice, _, hfresh, ⟨own, s₁⟩, hlock, tally, ⟨_, rfl⟩, h⟩ := h
  obtain ⟨_, rfl⟩ := lockBalance_ok hs hlock
  rw [castVote_ok h]
  refine ⟨⟨p, getOpenProposal_ok hopen, hchoice⟩, hauth, hfresh, ?_⟩
  rw [entry_insert_self]
  rfl

theorem exec_choiceTally_eq (hs : Ready c s) (h : exec i s = .ok t)
    (hother : ∀ voter pid choice amount, i.call ≠ .voteChoice voter pid choice amount) :
    t.choiceTally = s.choiceTally := by
  cases exec_move hs h with
  | created p hcall hauth hcount hstate hyes hno hbond hsupply h => rw [h]; rfl
  | voted voter q p own weight support hauth hopen hown hweight hresult =>
    cases hweight with
    | alone base hcall hpos hbase =>
      rcases hcall with ⟨support, hcall⟩ | ⟨choice, amount, hcall⟩
      · simp only [exec, hcall, vote, bind_eq_ok] at h
        obtain ⟨_, _, _, _, p, _, _, _, ⟨own, s₁⟩, hlock, h⟩ := h
        obtain ⟨_, rfl⟩ := lockBalance_ok hs hlock
        rw [castVote_ok h]
        rfl
      · exact absurd hcall (hother _ _ _ _)
    | delegated support delegators hcall hlocked =>
      simp only [exec, hcall, voteWithDelegators, bind_eq_ok] at h
      obtain ⟨_, _, _, _, p, _, _, _, ⟨own, s₁⟩, hlock, total, _, h⟩ := h
      obtain ⟨_, rfl⟩ := lockBalance_ok hs hlock
      rw [castVote_ok h]
      rfl
  | locked voter q p own hcall hauth hopen hown h => rw [h]; rfl
  | unlocked voter q p amount hcall hp' hlate hlock h => rw [h]
  | arranged hcall h => rw [h]
  | queued q p hcall hp' hstate hlate hpassed h => rw [h]; rfl
  | executed q p hp' hcall h => rw [h]; rfl
  | cancelled q p purpose target hp' hstate hcall h => rw [h]; rfl
  | dropped q p hp' hcall h => rw [h]; rfl

theorem exec_keeps_votes (hs : Ready c s) (h : exec i s = .ok t) {key : ℕ × Address}
    (hkey : key ∈ s.votes) : key ∈ t.votes := by
  cases exec_move hs h with
  | voted voter q p own weight support hauth hopen hown hweight h =>
    rw [h]
    exact Finmap.mem_insert.mpr (.inr hkey)
  | created p hcall hauth hcount hstate hyes hno hbond hsupply h => rw [h]; exact hkey
  | locked voter q p own hcall hauth hopen hown h => rw [h]; exact hkey
  | unlocked voter q p amount hcall hp' hlate hlock h => rw [h]; exact hkey
  | arranged hcall h => rw [h]; exact hkey
  | queued q p hcall hp' hstate hlate hpassed h => rw [h]; exact hkey
  | executed q p hp' hcall h => rw [h]; exact hkey
  | cancelled q p purpose target hp' hstate hcall h => rw [h]; exact hkey
  | dropped q p hp' hcall h => rw [h]; exact hkey

/-- The choices of a proposal, and when its voting ends. -/
def termsOf (pid : ℕ) (s : State) : Option (List Symbol × ℕ) :=
  (s.proposals.lookup pid).map fun p => (p.choices, p.deadline)

theorem exec_keeps_terms (hs : Ready c s) (h : exec i s = .ok t) {terms : List Symbol × ℕ}
    (hterms : termsOf pid s = some terms) : termsOf pid t = some terms := by
  -- whatever is stored under a number has the terms of what was there
  have hwrite : ∀ (u : State) q p r, u.proposals = (s.setProposal q r).proposals →
      s.proposals.lookup q = some p → r.choices = p.choices → r.deadline = p.deadline →
      termsOf pid u = some terms := by
    intro u q p r hu hp hchoices hdeadline
    unfold termsOf at hterms ⊢
    rw [hu, State.setProposal, lookup_insert_ite]
    split
    · next heq =>
      subst heq
      rw [hp] at hterms
      rw [← hterms, Option.map_some, Option.map_some, hchoices, hdeadline]
    · exact hterms
  have hsame : ∀ u : State, u.proposals = s.proposals → termsOf pid u = some terms := by
    intro u hu
    unfold termsOf
    rw [hu]
    exact hterms
  cases exec_move hs h with
  | created p hcall hauth hcount hstate hyes hno hbond hsupply h =>
    obtain ⟨n, hn, hbelow⟩ := hs.counted
    cases hcount.symm.trans hn
    unfold termsOf at hterms ⊢
    rw [h]
    dsimp only [State.setProposal]
    rw [lookup_insert_ite, if_neg]
    · exact hterms
    · rintro rfl
      obtain ⟨q, hq, _⟩ := Option.map_eq_some_iff.mp hterms
      exact absurd (hbelow _ _ hq) (lt_irrefl _)
  | voted voter q p own weight support hauth hopen hown hweight h =>
    refine hwrite t q p (p.withVotes support weight) (by rw [h]; rfl) hopen.lookup_eq ?_ ?_ <;>
      cases support <;> rfl
  | locked voter q p own hcall hauth hopen hown h => exact hsame t (by rw [h]; rfl)
  | unlocked voter q p amount hcall hp' hlate hlock h => exact hsame t (by rw [h])
  | arranged hcall h => exact hsame t (by rw [h])
  | queued q p hcall hp' hstate hlate hpassed h =>
    exact hwrite t q p { p with state := .queued, executionEta := p.deadline + c.executionDelay }
      (by rw [h]) hp' rfl rfl
  | executed q p hp' hcall h =>
    exact hwrite t q p { p with state := .executed } (by rw [h]) hp' rfl rfl
  | cancelled q p purpose target hp' hstate hcall h =>
    exact hwrite t q p { p with state := .cancelled } (by rw [h]) hp' rfl rfl
  | dropped q p hp' hcall h =>
    exact hwrite t q p { p with state := .cancelled } (by rw [h]) hp' rfl rfl

theorem choicesOf_eq {terms : List Symbol × ℕ} (h : termsOf pid s = some terms) :
    choicesOf pid s = terms.1 := by
  obtain ⟨p, hp, rfl⟩ := Option.map_eq_some_iff.mp h
  unfold choicesOf
  rw [hp]
  rfl

theorem exec_closed (hs : Ready c s) (h : exec i s = .ok t) {terms : List Symbol × ℕ}
    (hterms : termsOf pid s = some terms) (hlate : terms.2 < i.sequence) (choice : Symbol) :
    entry t.choiceTally (pid, choice) = entry s.choiceTally (pid, choice) := by
  by_cases hballot : ∃ voter q choice amount, i.call = .voteChoice voter q choice amount
  · obtain ⟨voter, q, chosen, amount, hcall⟩ := hballot
    simp only [exec, hcall] at h
    have hvoted := voteChoice_ok hs h
    obtain ⟨p, hopen, _⟩ := hvoted.proposal
    rw [hvoted.tally, entry_insert_of_ne]
    intro hkey
    obtain ⟨rfl, _⟩ := Prod.mk.inj hkey
    unfold termsOf at hterms
    rw [hopen.lookup_eq] at hterms
    cases hterms
    exact absurd hopen.intime (not_le.mpr hlate)
  · rw [exec_choiceTally_eq hs h fun voter q chosen amount hcall => hballot ⟨voter, q, chosen, amount, hcall⟩]

end Steps

structure Ballot where
  voter : Address
  choice : Symbol
  weight : ℤ
  deriving DecidableEq, Repr

section Ballots
variable {dao : Deployment} {c : Config} {i : Invocation dao} {pid : ℕ} {s t : State}
  {past : List (Entry State (Invocation dao))}

/-- The ballot that a call casts on a proposal; its weight is what is recorded for the voter. -/
def ballotOf (pid : ℕ) (e : Entry State (Invocation dao)) : Option Ballot :=
  match e.invocation.call with
  | .voteChoice voter q choice _ =>
    if q = pid then some ⟨voter, choice, entry e.after.votes (pid, voter)⟩ else none
  | _ => none

def ballots (pid : ℕ) (past : List (Entry State (Invocation dao))) : List Ballot :=
  past.filterMap (ballotOf pid)

/-- What the ballots for a choice weigh. -/
def votesFor (pid : ℕ) (choice : Symbol) (past : List (Entry State (Invocation dao))) : ℤ :=
  (((ballots pid past).filter fun b => b.choice = choice).map Ballot.weight).sum

theorem ballots_snoc (pid : ℕ) (past : List (Entry State (Invocation dao)))
    (e : Entry State (Invocation dao)) :
    ballots pid (past ++ [e]) = ballots pid past ++ (ballotOf pid e).toList := by
  rw [ballots, List.filterMap_append]
  cases h : ballotOf pid e <;> simp [ballots, h]

theorem votesFor_snoc (pid : ℕ) (choice : Symbol) (past : List (Entry State (Invocation dao)))
    (e : Entry State (Invocation dao)) : votesFor pid choice (past ++ [e]) =
      votesFor pid choice past +
        (((ballotOf pid e).toList.filter fun b => b.choice = choice).map Ballot.weight).sum := by
  rw [votesFor, ballots_snoc, List.filter_append, List.map_append, List.sum_append]
  rfl

theorem ballotOf_eq_some {e : Entry State (Invocation dao)} {b : Ballot} :
    ballotOf pid e = some b ↔ ∃ amount, e.invocation.call = .voteChoice b.voter pid b.choice amount ∧
      b.weight = entry e.after.votes (pid, b.voter) := by
  unfold ballotOf
  constructor
  · intro h
    split at h
    · next voter q choice amount hcall =>
      split at h
      · next hq =>
        subst hq
        cases h
        exact ⟨amount, hcall, rfl⟩
      · cases h
    · cases h
  · rintro ⟨amount, hcall, hweight⟩
    rw [hcall]
    dsimp only
    rw [if_pos rfl, ← hweight]

/-- A ballot was signed by its voter, for a choice of the proposal and before its deadline. -/
def Valid (pid : ℕ) (s : State) (e : Entry State (Invocation dao)) : Prop :=
  ∀ b ∈ ballotOf pid e, b.voter ∈ e.invocation.auths ∧ ∃ terms, termsOf pid s = some terms ∧
    b.choice ∈ terms.1 ∧ e.invocation.sequence ≤ terms.2

structure Counted (c : Config) (pid : ℕ) (past : List (Entry State (Invocation dao))) (s : State) :
    Prop extends Ready c s where
  tally : ∀ choice, entry s.choiceTally (pid, choice) = votesFor pid choice past
  recorded : ∀ b ∈ ballots pid past, (pid, b.voter) ∈ s.votes
  once : ((ballots pid past).map Ballot.voter).Nodup
  valid : ∀ e ∈ past, Valid pid s e

theorem Valid.kept (hs : Ready c s) (h : exec i s = .ok t) {e : Entry State (Invocation dao)}
    (hvalid : Valid pid s e) : Valid pid t e := by
  intro b hb
  obtain ⟨hauth, terms, hterms, hrest⟩ := hvalid b hb
  exact ⟨hauth, terms, exec_keeps_terms hs h hterms, hrest⟩

/-- A call that casts no ballot on the proposal. -/
theorem Counted.other (hs : Counted c pid past s) (h : exec i s = .ok t)
    (hnone : ballotOf pid ⟨s, i, t⟩ = none) : Counted c pid (past ++ [⟨s, i, t⟩]) t := by
  have hsame : ballots pid (past ++ [⟨s, i, t⟩]) = ballots pid past := by
    rw [ballots_snoc, hnone, Option.toList_none, List.append_nil]
  refine ⟨exec_ready hs.toReady h, fun choice => ?_, fun b hb => ?_, ?_, fun e he => ?_⟩
  · have hkept : entry t.choiceTally (pid, choice) = entry s.choiceTally (pid, choice) := by
      by_cases hballot : ∃ voter q choice amount, i.call = .voteChoice voter q choice amount
      · obtain ⟨voter, q, chosen, amount, hcall⟩ := hballot
        simp only [exec, hcall] at h
        rw [(voteChoice_ok hs.toReady h).tally, entry_insert_of_ne]
        intro hkey
        obtain ⟨rfl, _⟩ := Prod.mk.inj hkey
        simp [ballotOf, hcall] at hnone
      · rw [exec_choiceTally_eq hs.toReady h fun voter q chosen amount hcall =>
          hballot ⟨voter, q, chosen, amount, hcall⟩]
    rw [hkept, hs.tally, votesFor, votesFor, hsame]
  · rw [hsame] at hb
    exact exec_keeps_votes hs.toReady h (hs.recorded b hb)
  · rw [hsame]
    exact hs.once
  · rcases List.mem_append.mp he with he | he
    · exact (hs.valid e he).kept hs.toReady h
    · rw [List.mem_singleton.mp he]
      intro b hb
      rw [hnone] at hb
      cases hb

theorem Counted.ballot (hs : Counted c pid past s) (h : exec i s = .ok t) {b : Ballot}
    (hb : ballotOf pid ⟨s, i, t⟩ = some b) : Counted c pid (past ++ [⟨s, i, t⟩]) t := by
  obtain ⟨amount, hcall, hweight⟩ := ballotOf_eq_some.mp hb
  dsimp only at hcall hweight
  have hready := exec_ready hs.toReady h
  have hkept : ∀ key, key ∈ s.votes → key ∈ t.votes := fun _ hkey =>
    exec_keeps_votes hs.toReady h hkey
  have hvoted : Balloted i.toEnv b.voter pid b.choice s t := by
    simp only [exec, hcall] at h
    exact voteChoice_ok hs.toReady h
  have hnew : (pid, b.voter) ∈ t.votes := by
    cases exec_move hs.toReady h with
    | voted voter q p own weight support hauth hopen hown hlight hresult =>
      have hkey := hlight.lockKey_eq
      rw [hcall] at hkey
      cases hkey
      rw [hresult]
      exact Finmap.mem_insert.mpr (.inl rfl)
    | created p hproposes => simp [hcall, Call.Proposes] at hproposes
    | locked voter q p own hother => simp [hcall] at hother
    | unlocked voter q p amount hother => simp [hcall] at hother
    | arranged hother => simp [hcall] at hother
    | queued q p hother => simp [hcall] at hother
    | executed q p hp' hother => simp [hcall] at hother
    | cancelled q p purpose target hp' hstate hother => simp [hcall] at hother
    | dropped q p hp' hother => simp [hcall] at hother
  have hsnoc : ballots pid (past ++ [⟨s, i, t⟩]) = ballots pid past ++ [b] := by
    rw [ballots_snoc, hb, Option.toList_some]
  refine ⟨hready, fun choice => ?_, fun b' hb' => ?_, ?_, fun e he => ?_⟩
  · rw [hvoted.tally, votesFor_snoc, hb, ← hs.tally, ← hweight, Option.toList_some]
    by_cases hchoice : b.choice = choice
    · subst hchoice
      rw [entry_insert_self, List.filter_cons_of_pos (by simp)]
      simp
    · rw [entry_insert_of_ne _ _ (by simp [Ne.symm hchoice]), List.filter_cons_of_neg (by simpa using hchoice)]
      simp
  · rw [hsnoc] at hb'
    rcases List.mem_append.mp hb' with hb' | hb'
    · exact hkept _ (hs.recorded b' hb')
    · rw [List.mem_singleton.mp hb']
      exact hnew
  · rw [hsnoc, List.map_append, List.map_singleton]
    refine List.nodup_append.mpr ⟨hs.once, List.nodup_singleton _, ?_⟩
    intro x hx y hy heq
    obtain ⟨b', hb', rfl⟩ := List.mem_map.mp hx
    rw [List.mem_singleton.mp hy] at heq
    apply hvoted.fresh
    rw [← heq]
    exact hs.recorded b' hb'
  · rcases List.mem_append.mp he with he | he
    · exact (hs.valid e he).kept hs.toReady h
    · rw [List.mem_singleton.mp he]
      intro b' hb'
      rw [hb, Option.mem_some_iff] at hb'
      subst hb'
      obtain ⟨p, hopen, hchoice⟩ := hvoted.proposal
      have hterms : termsOf pid s = some (p.choices, p.deadline) := by
        unfold termsOf
        rw [hopen.lookup_eq, Option.map_some]
      exact ⟨hvoted.signed, _, exec_keeps_terms hs.toReady h hterms, hchoice, hopen.intime⟩

theorem Counted.step (hs : Counted c pid past s) (h : exec i s = .ok t) :
    Counted c pid (past ++ [⟨s, i, t⟩]) t := by
  cases hb : ballotOf pid ⟨s, i, t⟩ with
  | none => exact hs.other h hb
  | some b => exact hs.ballot h hb

end Ballots

/-- In every run of the contract the tallies of a proposal are what the ballots for its choices
    weigh, each ballot signed by its voter before the deadline and one a voter; the winner is the
    first choice whose ballots weigh most, if they weigh anything; and once the deadline has passed
    no invocation changes it. -/
theorem winner_of_ballots (dao : Deployment) (admin token : Address) (votingPeriod : ℕ)
    (quorum proposalBond : ℤ) (minQuorumBps maxQuorumBps quorumBps executionDelay : ℕ)
    (init : Invocation dao) (s : State)
    (hcall : init.call = .initializeDao admin token votingPeriod quorum proposalBond minQuorumBps
      maxQuorumBps quorumBps executionDelay)
    (hinit : exec init State.empty = .ok s) (is : List (Invocation dao)) (pid : ℕ)
    (choices : List Symbol) (deadline : ℕ)
    (hterms : termsOf pid (run s is) = some (choices, deadline)) :
    (getProposalChoiceTallies pid (run s is) =
      choices.map fun choice => ⟨choice, votesFor pid choice (history exec s is)⟩) ∧
    ((ballots pid (history exec s is)).map Ballot.voter).Nodup ∧
    (∀ e ∈ history exec s is, ∀ b ∈ ballotOf pid e, b.voter ∈ e.invocation.auths ∧
      b.choice ∈ choices ∧ e.invocation.sequence ≤ deadline) ∧
    (∀ choice, getProposalWinner pid (run s is) = some choice ↔
      Leads (fun choice => votesFor pid choice (history exec s is)) 0 choices choice) ∧
    (getProposalWinner pid (run s is) = none ↔
      ∀ choice ∈ choices, votesFor pid choice (history exec s is) ≤ 0) ∧
    ∀ js : List (Invocation dao), (∀ j ∈ js, deadline < j.sequence) →
      getProposalWinner pid (run (run s is) js) = getProposalWinner pid (run s is) := by
  simp only [exec, hcall] at hinit
  obtain ⟨_, hready, _⟩ := initializeDao_ready hinit
  have hfirst : Counted ⟨admin, token, quorum, proposalBond, quorumBps, executionDelay⟩ pid
      ([] : List (Entry State (Invocation dao))) s := by
    refine ⟨hready, fun choice => ?_, fun b hb => absurd hb (by simp [ballots]), by simp [ballots],
      fun e he => absurd he (List.not_mem_nil)⟩
    simp only [initializeDao, bind_eq_ok, pure_eq_ok] at hinit
    obtain ⟨_, _, _, _, _, _, _, _, rfl⟩ := hinit
    rfl
  have hrun : Counted ⟨admin, token, quorum, proposalBond, quorumBps, executionDelay⟩ pid
      (history exec s is) (run s is) :=
    history_invariant_along (P := fun _ _ => True) (fun _ _ _ _ hs _ h => hs.step h) hfirst
      (along_true exec s is)
  have hchoices : choicesOf pid (run s is) = choices := choicesOf_eq hterms
  have htally : (fun choice => entry (run s is).choiceTally (pid, choice)) =
      fun choice => votesFor pid choice (history exec s is) := funext hrun.tally
  refine ⟨?_, hrun.once, ?_, fun choice => ?_, ?_, fun js hlate => ?_⟩
  · rw [choiceTallies_eq, hchoices]
    exact List.map_congr_left fun choice _ => by rw [hrun.tally]
  · intro e he b hb
    obtain ⟨hauth, terms, hsome, hrest⟩ := hrun.valid e he b hb
    cases hterms.symm.trans hsome
    exact ⟨hauth, hrest⟩
  · rw [getProposalWinner_eq, hchoices, htally]
    exact leader_eq_some_iff
  · rw [getProposalWinner_eq, hchoices, htally]
    exact leader_eq_none_iff
  · obtain ⟨_, hafter, hkept⟩ := run_invariant_along
      (I := fun u => Ready ⟨admin, token, quorum, proposalBond, quorumBps, executionDelay⟩ u ∧
        termsOf pid u = some (choices, deadline) ∧
        ∀ choice, entry u.choiceTally (pid, choice) = entry (run s is).choiceTally (pid, choice))
      (P := fun _ (j : Invocation dao) => True ∧ deadline < j.sequence)
      (fun u j v hu hj h => ⟨exec_ready hu.1 h, exec_keeps_terms hu.1 h hu.2.1, fun choice =>
        (exec_closed hu.1 h hu.2.1 hj.2 choice).trans (hu.2.2 choice)⟩)
      ⟨hrun.toReady, hterms, fun _ => rfl⟩ ((along_true exec (run s is) js).and_forall hlate)
    change termsOf pid (run (run s is) js) = _ at hafter
    rw [getProposalWinner_eq, getProposalWinner_eq, choicesOf_eq hafter, hchoices]
    exact congrArg (fun score => leader score 0 choices) (funext hkept)

/-- Alice's ballot weighs 100 and Bob's 40; a second one of Alice is refused. -/
def demoChoices : List (Invocation demoDao) :=
  [demoCall 2 (.createProposalWithConfig demoCarol "a" "b" none none none .linear .standard
      ["p", "q", "r"]),
    demoCall 3 (.voteChoice demoAlice 0 "q" 0), demoCall 4 (.voteChoice demoBob 0 "p" 40),
    demoCall 5 (.voteChoice demoAlice 0 "r" 0)]

theorem winner_of_ballots_demo :
    getProposalWinner 0 (run (run State.empty [demoInitialize 0]) demoChoices) = some "q" ∧
    Leads (fun choice => votesFor 0 choice
      (history exec (run State.empty [demoInitialize 0]) demoChoices)) 0 ["p", "q", "r"] "q" := by
  have hwinner : getProposalWinner 0 (run (run State.empty [demoInitialize 0]) demoChoices) =
      some "q" := by decide +kernel
  obtain ⟨_, _, _, hleads, _⟩ := winner_of_ballots demoDao demoAdmin demoToken 10 50 0 0 0 0 5
    (demoInitialize 0) (run State.empty [demoInitialize 0]) rfl rfl demoChoices 0 ["p", "q", "r"] 12
    (by decide +kernel)
  exact ⟨hwinner, (hleads "q").mp hwinner⟩

end SorobanKit.Dao
