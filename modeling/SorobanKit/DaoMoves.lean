import SorobanKit.DaoContract

set_option autoImplicit false

/-!
# What a call does to the DAO

The values `initialize` stores never change; `Ready` keeps them beside the numbering of the
proposals. `Move` lists everything a returning call can do from there, with the guards it passed.
-/
namespace SorobanKit.Dao
open HostBalances HostInteger HostInvocation HostTransfers

structure Config where
  admin : Address
  token : Address
  quorum : ℤ
  proposalBond : ℤ
  quorumBps : ℕ
  executionDelay : ℕ

/-- The execution delay configured for a tier. -/
def tierDelay (s : State) : ProposalTier → ℕ
  | .standard => s.standardDelay.getD defaultStandardDelay
  | .financial => s.financialDelay.getD defaultFinancialDelay
  | .critical => s.criticalDelay.getD defaultCriticalDelay

structure Ready (c : Config) (s : State) : Prop where
  initialized_eq : s.initialized = true
  admin_eq : s.admin = some c.admin
  token_eq : s.token = some c.token
  quorum_eq : s.quorum = some c.quorum
  bond_eq : s.proposalBond = some c.proposalBond
  quorumBps_eq : s.quorumBps = some c.quorumBps
  delay_eq : s.executionDelay = some c.executionDelay
  standard_eq : s.standardDelay = some c.executionDelay
  financial_eq : s.financialDelay = some defaultFinancialDelay
  critical_eq : s.criticalDelay = some defaultCriticalDelay
  counted : ∃ n, s.proposalCount = some n ∧ ∀ pid p, s.proposals.lookup pid = some p → pid < n
  ids : ∀ pid p, s.proposals.lookup pid = some p → p.id = pid
  locks_nonneg : NonnegEntries s.lockedTokens

/-- What the queue demands of the votes. -/
structure Passed (c : Config) (p : Proposal) : Prop where
  majority : p.noVotes < p.yesVotes
  quorum : c.quorum ≤ p.yesVotes + p.noVotes
  participation : 0 < c.quorumBps →
    c.quorumBps * p.totalSupplyAtCreation ≤ (p.yesVotes + p.noVotes) * 10000

/-- A proposal that takes votes at ledger `now`. -/
structure Open (now : ℕ) (s : State) (pid : ℕ) (p : Proposal) : Prop where
  lookup_eq : s.proposals.lookup pid = some p
  active : p.state = .active
  intime : now ≤ p.deadline

/-- The tokens of a voter locked in the contract. -/
def State.lock (s : State) (house token : Address) (pid : ℕ) (voter : Address) (own : ℤ) : State :=
  { s with
    lockedTokens := s.lockedTokens.insert (pid, voter) own,
    transfers := s.transfers ++ [⟨.lock pid, token, voter, house, own⟩] }

def Proposal.withVotes (p : Proposal) (support : Bool) (weight : ℤ) : Proposal :=
  if support then { p with yesVotes := p.yesVotes + weight }
  else { p with noVotes := p.noVotes + weight }

section Votes
variable (p : Proposal) (support : Bool) (weight : ℤ)

theorem withVotes_id : (p.withVotes support weight).id = p.id := by
  cases support <;> rfl

theorem withVotes_state : (p.withVotes support weight).state = p.state := by
  cases support <;> rfl

theorem withVotes_bondAmount : (p.withVotes support weight).bondAmount = p.bondAmount := by
  cases support <;> rfl

theorem withVotes_votingType : (p.withVotes support weight).votingType = p.votingType := by
  cases support <;> rfl

end Votes

/-- A bond moves only when it is positive. -/
def bondPay (purpose : Purpose) (token source target : Address) (bond : ℤ) :
    List (Transfer Purpose) :=
  if 0 < bond then [⟨purpose, token, source, target, bond⟩] else []

/-- The payload of a proposal, when it has all three parts. -/
def actionOf (pid : ℕ) (p : Proposal) : List Dispatch :=
  match p.actionTarget, p.actionFunction, p.actionArgs with
  | some target, some function, some args => [⟨pid, target, function, args⟩]
  | _, _, _ => []

/-- What the delegators locked for a proposal. -/
def delegatedWeight (pid : ℕ) (delegators : List Address) (s : State) : ℤ :=
  (delegators.map fun d => entry s.lockedTokens (pid, d)).sum

/-- The weight of a vote by an owner of `own` tokens, read in the state `s` after the lock. -/
inductive Weight (dao : Deployment) (call : Call) (voter : Address) (pid : ℕ) (s : State)
    (p : Proposal) (own : ℤ) : ℤ → Prop where
  | alone (base : ℤ)
      (hcall : (∃ support, call = .vote voter pid support) ∨
        ∃ choice amount, call = .voteChoice voter pid choice amount)
      (hpos : 0 < base) (hbase : base ≤ own) :
      Weight dao call voter pid s p own (dao.applyVotingType p.votingType (p.cap base))
  | delegated (support : Bool) (delegators : List Address)
      (hcall : call = .voteWithDelegators voter pid support delegators)
      (hlocked : ∀ d ∈ delegators, (pid, d) ∈ s.lockedTokens) :
      Weight dao call voter pid s p own (p.cap (own + delegatedWeight pid delegators s))

/-- The slot of `LockedTokens` that a call sets. -/
def Call.lockKey : Call → Option (ℕ × Address)
  | .vote voter pid _ => some (pid, voter)
  | .voteChoice voter pid _ _ => some (pid, voter)
  | .voteWithDelegators voter pid _ _ => some (pid, voter)
  | .lockForVote voter pid => some (pid, voter)
  | _ => none

def Call.Proposes : Call → Prop
  | .createProposal .. | .createProposalWithConfig .. => True
  | _ => False

inductive Move {dao : Deployment} (c : Config) (i : Invocation dao) (s t : State) : Prop where
  | created (p : Proposal) (hcall : i.call.Proposes) (hauth : p.proposer ∈ i.auths)
      (hcount : s.proposalCount = some p.id) (hstate : p.state = .active)
      (hyes : p.yesVotes = 0) (hno : p.noVotes = 0) (hbond : p.bondAmount = c.proposalBond)
      (hsupply : p.totalSupplyAtCreation = i.totalSupply c.token)
      (h : t = { s.setProposal p.id p with
        proposalCount := some (p.id + 1), activePayloadHash := t.activePayloadHash,
        transfers := s.transfers ++ bondPay (.bond p.id) c.token p.proposer dao.house p.bondAmount })
  | voted (voter : Address) (pid : ℕ) (p : Proposal) (own weight : ℤ) (support : Bool)
      (hauth : voter ∈ i.auths) (hopen : Open i.sequence s pid p) (hown : 0 < own)
      (hweight : Weight dao i.call voter pid (s.lock dao.house c.token pid voter own) p own weight)
      (h : t = { (s.lock dao.house c.token pid voter own).setProposal pid
          (p.withVotes support weight) with
        votes := s.votes.insert (pid, voter) weight, choiceTally := t.choiceTally })
  | locked (voter : Address) (pid : ℕ) (p : Proposal) (own : ℤ)
      (hcall : i.call = .lockForVote voter pid) (hauth : voter ∈ i.auths)
      (hopen : Open i.sequence s pid p) (hown : 0 < own)
      (h : t = s.lock dao.house c.token pid voter own)
  | unlocked (voter : Address) (pid : ℕ) (p : Proposal) (amount : ℤ)
      (hcall : i.call = .unlockTokens voter pid) (hp : s.proposals.lookup pid = some p)
      (hlate : p.deadline < i.sequence) (hlock : s.lockedTokens.lookup (pid, voter) = some amount)
      (h : t = { s with
        lockedTokens := s.lockedTokens.erase (pid, voter),
        transfers := s.transfers ++ [⟨.unlock pid, c.token, dao.house, voter, amount⟩] })
  | arranged (hcall : (∃ delegator delegatee, i.call = .delegate delegator delegatee) ∨
        (∃ delegator, i.call = .undelegate delegator) ∨
        ∃ admin council, i.call = .setSecurityCouncil admin council)
      (h : t = { s with delegates := t.delegates, securityCouncil := t.securityCouncil })
  | queued (pid : ℕ) (p : Proposal) (hcall : i.call = .queueProposal pid)
      (hp : s.proposals.lookup pid = some p) (hstate : p.state = .active)
      (hlate : p.deadline < i.sequence) (hpassed : Passed c p)
      (h : t = s.setProposal pid
        { p with state := .queued, executionEta := p.deadline + c.executionDelay })
  | executed (pid : ℕ) (p : Proposal) (hp : s.proposals.lookup pid = some p)
      (hcall : (i.call = .executeProposal pid ∧ p.state = .queued ∧ p.executionEta ≤ i.sequence) ∨
        ∃ council, i.call = .emergencyExecuteProposal council pid ∧
          s.securityCouncil = some council ∧ council ∈ i.auths ∧
          (p.state = .active ∨ p.state = .queued))
      (h : t = { s.setProposal pid { p with state := .executed } with
        transfers := s.transfers ++ bondPay (.bondRefund pid) c.token dao.house p.proposer p.bondAmount,
        dispatched := s.dispatched ++ actionOf pid p,
        quorumEmaBps := t.quorumEmaBps, quorumEmaCount := t.quorumEmaCount })
  | cancelled (pid : ℕ) (p : Proposal) (purpose : Purpose) (target : Address)
      (hp : s.proposals.lookup pid = some p) (hstate : p.state = .active)
      (hcall : (i.call = .adminCancelProposal pid ∧ purpose = .bondSlash p.id ∧ target = c.admin) ∨
        (i.call = .cancelProposal p.proposer pid ∧ purpose = .bondRefund pid ∧ target = p.proposer))
      (h : t = { s.setProposal pid { p with state := .cancelled } with
        transfers := s.transfers ++ bondPay purpose c.token dao.house target p.bondAmount })
  | dropped (pid : ℕ) (p : Proposal) (hp : s.proposals.lookup pid = some p)
      (hcall : (i.call = .vetoProposal pid ∧ p.state = .queued) ∨
        (i.call = .proposerCancelProposal p.proposer pid ∧ p.state = .active))
      (h : t = s.setProposal pid { p with state := .cancelled })

theorem Call.Proposes.lockKey_eq {call : Call} (h : call.Proposes) : call.lockKey = none := by
  cases call <;> first | rfl | exact h.elim

theorem Weight.lockKey_eq {dao : Deployment} {call : Call} {voter : Address} {pid : ℕ} {s : State}
    {p : Proposal} {own weight : ℤ} (h : Weight dao call voter pid s p own weight) :
    call.lockKey = some (pid, voter) := by
  cases h with
  | alone base hcall =>
    rcases hcall with ⟨_, rfl⟩ | ⟨_, _, rfl⟩ <;> rfl
  | delegated support delegators hcall =>
    rw [hcall]
    rfl

section Specs
variable {dao : Deployment} {env : Env} {c : Config} {s t : State}

theorem getOpenProposal_ok {pid : ℕ} {p : Proposal} (h : getOpenProposal env pid s = .ok p) :
    Open env.sequence s pid p := by
  simp only [getOpenProposal, getProposal, bind_eq_ok, okOr_eq_ok, rejectIf_eq_ok, pure_eq_ok,
    not_not, not_lt] at h
  obtain ⟨_, hp, _, hstate, _, hintime, rfl⟩ := h
  exact ⟨hp, hstate, hintime⟩

theorem lockBalance_ok (hs : Ready c s) {voter : Address} {pid : ℕ} {own : ℤ}
    (h : lockBalance dao env voter pid s = .ok (own, t)) :
    0 < own ∧ t = s.lock dao.house c.token pid voter own := by
  simp only [lockBalance, getInstance, bind_eq_ok, okOr_eq_ok, rejectIf_eq_ok, pure_eq_ok, not_le,
    Prod.mk.injEq, hs.token_eq, Option.some.injEq] at h
  obtain ⟨_, rfl, _, hpos, s₁, hpay, rfl, rfl⟩ := h
  rw [recordTransfer_ok hpay]
  exact ⟨hpos, rfl⟩

theorem addVotes_ok {p q : Proposal} {support : Bool} {weight : ℤ}
    (h : p.addVotes support weight = .ok q) : q = p.withVotes support weight := by
  unfold Proposal.addVotes at h
  unfold Proposal.withVotes
  cases support with
  | true =>
    simp only [↓reduceIte, bind_eq_ok, okOr_eq_ok, checkedAdd_eq_some, pure_eq_ok] at h
    obtain ⟨_, ⟨_, rfl⟩, rfl⟩ := h
    rfl
  | false =>
    simp only [Bool.false_eq_true, ↓reduceIte, bind_eq_ok, okOr_eq_ok, checkedAdd_eq_some,
      pure_eq_ok] at h
    obtain ⟨_, ⟨_, rfl⟩, rfl⟩ := h
    rfl

theorem castVote_ok {voter : Address} {pid : ℕ} {p : Proposal} {support : Bool} {weight : ℤ}
    (h : castVote voter pid p support weight s = .ok t) :
    t = { s.setProposal pid (p.withVotes support weight) with
      votes := s.votes.insert (pid, voter) weight } := by
  simp only [castVote, bind_eq_ok, pure_eq_ok] at h
  obtain ⟨q, hq, rfl⟩ := h
  rw [addVotes_ok hq]

theorem delegators_ok {voter : Address} {pid : ℕ} {delegators : List Address} {own sum : ℤ}
    (h : delegators.foldlM (addDelegated voter pid s) own = .ok sum) :
    sum = own + delegatedWeight pid delegators s ∧ ∀ d ∈ delegators, (pid, d) ∈ s.lockedTokens := by
  unfold delegatedWeight
  induction delegators generalizing own with
  | nil =>
    rw [List.foldlM_nil, pure_eq_ok] at h
    simp [h]
  | cons d rest ih =>
    rw [List.foldlM_cons, bind_eq_ok] at h
    obtain ⟨next, hd, h⟩ := h
    simp only [addDelegated, bind_eq_ok, okOr_eq_ok, checkedAdd_eq_some] at hd
    obtain ⟨_, _, _, _, amount, hamount, _, rfl⟩ := hd
    obtain ⟨hsum, hrest⟩ := ih h
    have hentry : entry s.lockedTokens (pid, d) = amount := by
      rw [entry, hamount, Option.getD_some]
    refine ⟨?_, List.forall_mem_cons.mpr ⟨Finmap.mem_of_lookup_eq_some hamount, hrest⟩⟩
    rw [List.map_cons, List.sum_cons, hentry]
    omega

theorem escrowBond_ok {proposer token : Address} {balance : ℤ} {pid : ℕ}
    (h : escrowBond dao env proposer token balance pid s = .ok t) :
    t = { s with transfers :=
      s.transfers ++ bondPay (.bond pid) token proposer dao.house (s.proposalBond.getD 0) } := by
  unfold escrowBond at h
  unfold bondPay
  dsimp only at h
  split at h
  · next hpos =>
    rw [bind_eq_ok] at h
    obtain ⟨_, _, hpay⟩ := h
    rw [recordTransfer_ok hpay, if_pos hpos]
  · next hpos =>
    rw [pure_eq_ok] at h
    rw [if_neg hpos, List.append_nil, h]

theorem refundIfBonded_ok {pid : ℕ} {p : Proposal} (h : refundIfBonded dao env pid p s = .ok t)
    (htoken : s.token = some c.token) :
    t = { s with transfers :=
      s.transfers ++ bondPay (.bondRefund pid) c.token dao.house p.proposer p.bondAmount } := by
  unfold refundIfBonded at h
  unfold bondPay
  split at h
  · next hpos =>
    simp only [getInstance, bind_eq_ok, okOr_eq_ok, htoken, Option.some.injEq] at h
    obtain ⟨_, rfl, hpay⟩ := h
    rw [recordTransfer_ok hpay, if_pos hpos]
  · next hpos =>
    rw [pure_eq_ok] at h
    rw [if_neg hpos, List.append_nil, h]

theorem slashIfBonded_ok {p : Proposal} (h : slashIfBonded dao env p s = .ok t)
    (htoken : s.token = some c.token) (hadmin : s.admin = some c.admin) :
    t = { s with transfers :=
      s.transfers ++ bondPay (.bondSlash p.id) c.token dao.house c.admin p.bondAmount } := by
  unfold slashIfBonded at h
  unfold bondPay
  split at h
  · next hpos =>
    simp only [slashBond, htoken, hadmin] at h
    rw [recordTransfer_ok h, if_pos hpos]
  · next hpos =>
    rw [pure_eq_ok] at h
    rw [if_neg hpos, List.append_nil, h]

theorem actionOf_of_missing {pid : ℕ} {p : Proposal}
    (hmissing : ∀ target function args, p.actionTarget = some target →
      p.actionFunction = some function → p.actionArgs = some args → False) :
    actionOf pid p = [] := by
  unfold actionOf
  split
  · next htarget hfunction hargs => exact absurd hargs (hmissing _ _ _ htarget hfunction)
  · rfl

theorem dispatchAction_ok {pid : ℕ} {p : Proposal} (h : dispatchAction env pid p s = .ok t) :
    t = { s with dispatched := s.dispatched ++ actionOf pid p } := by
  unfold dispatchAction at h
  split at h
  · next target function args htarget hfunction hargs =>
    have haction : actionOf pid p = [⟨pid, target, function, args⟩] := by
      simp only [actionOf, htarget, hfunction, hargs]
    simp only [bind_eq_ok, pure_eq_ok] at h
    obtain ⟨_, _, rfl⟩ := h
    rw [haction]
  · next hmissing =>
    rw [pure_eq_ok] at h
    rw [actionOf_of_missing hmissing, List.append_nil, h]

theorem requireParticipation_ok (hs : Ready c s) {total : ℤ} {p : Proposal}
    (h : requireParticipation total p s = .ok ()) (hpos : 0 < c.quorumBps) :
    c.quorumBps * p.totalSupplyAtCreation ≤ total * 10000 := by
  simp only [requireParticipation, hs.quorumBps_eq, Option.getD_some, if_pos hpos, bind_eq_ok,
    okOr_eq_ok, checkedMul_eq_some, rejectIf_eq_ok, not_lt] at h
  obtain ⟨_, ⟨_, rfl⟩, _, ⟨_, rfl⟩, hle⟩ := h
  exact hle

theorem updateQuorumEma_frame (sample : ℕ) (s : State) :
    updateQuorumEma sample s = { s with
      quorumEmaBps := (updateQuorumEma sample s).quorumEmaBps,
      quorumEmaCount := (updateQuorumEma sample s).quorumEmaCount } := by
  unfold updateQuorumEma
  dsimp only
  split <;> rfl

end Specs

section Moves
variable {dao : Deployment} {c : Config} {i : Invocation dao} {s t : State}

theorem createProposalWithConfig_move (hs : Ready c s) (hcall : i.call.Proposes)
    {proposer : Address} {title description : String} {actionTarget : Option Address} {actionFunction : Option Symbol}
    {actionArgs : Option (List Val)} {votingType : VotingType} {tier : ProposalTier}
    {choices : List Symbol}
    (h : createProposalWithConfig dao i.toEnv proposer title description actionTarget actionFunction
      actionArgs votingType tier choices s = .ok t) : Move c i s t := by
  obtain ⟨count, hcount, _⟩ := hs.counted
  simp only [createProposalWithConfig, getInstance, bind_eq_ok, okOr_eq_ok, requireAuth_eq_ok,
    hs.token_eq, Option.some.injEq, hcount, Option.getD_some] at h
  obtain ⟨_, _, _, hauth, _, rfl, _, _, _, _, s₁, hbond, votingPeriod, _, _, hdeadline, _, hnext, h⟩ := h
  have hs₁ := escrowBond_ok hbond
  subst hs₁
  simp only [unwrap_eq_ok, checkedAddU32_eq_some] at hdeadline hnext
  obtain ⟨_, rfl⟩ := hdeadline
  obtain ⟨_, rfl⟩ := hnext
  rw [pure_eq_ok] at h
  subst h
  have hsame : s.proposalBond.getD 0 = c.proposalBond := by rw [hs.bond_eq, Option.getD_some]
  let p : Proposal :=
    { id := count, proposer := proposer, title := title, description := description,
      votingStart := i.sequence, deadline := i.sequence + votingPeriod, yesVotes := 0, noVotes := 0,
      state := .active, actionTarget := actionTarget, actionFunction := actionFunction,
      actionArgs := actionArgs, bondAmount := s.proposalBond.getD 0,
      totalSupplyAtCreation := i.totalSupply c.token, executionEta := 0, votingType := votingType,
      tier := tier, choices := choices,
      payloadHash := dao.computePayloadHash title description actionTarget actionFunction actionArgs }
  exact .created p hcall hauth hcount rfl rfl rfl hsame rfl rfl

theorem vote_move (hs : Ready c s) {voter : Address} {pid : ℕ} {support : Bool}
    (hcall : i.call = .vote voter pid support)
    (h : vote dao i.toEnv voter pid support s = .ok t) : Move c i s t := by
  simp only [vote, bind_eq_ok, requireAuth_eq_ok] at h
  obtain ⟨_, _, _, hauth, p, hopen, _, _, ⟨own, s₁⟩, hlock, h⟩ := h
  obtain ⟨hown, rfl⟩ := lockBalance_ok hs hlock
  have hcast := castVote_ok h
  have hopen := getOpenProposal_ok hopen
  refine .voted voter pid p own _ support hauth hopen hown
    (.alone own (.inl ⟨support, hcall⟩) hown (le_refl own)) ?_
  rw [hcast]
  rfl

theorem voteChoice_move (hs : Ready c s) {voter : Address} {pid : ℕ} {choice : Symbol} {amount : ℤ}
    (hcall : i.call = .voteChoice voter pid choice amount)
    (h : voteChoice dao i.toEnv voter pid choice amount s = .ok t) : Move c i s t := by
  simp only [voteChoice, bind_eq_ok, requireAuth_eq_ok] at h
  obtain ⟨_, _, _, hauth, p, hopen, _, _, _, _, ⟨own, s₁⟩, hlock, tally, _, h⟩ := h
  obtain ⟨hown, rfl⟩ := lockBalance_ok hs hlock
  have hcast := castVote_ok h
  have hopen := getOpenProposal_ok hopen
  have hbase : 0 < (if 0 < amount ∧ amount ≤ own then amount else own) ∧
      (if 0 < amount ∧ amount ≤ own then amount else own) ≤ own := by
    split
    · next hamount => exact hamount
    · exact ⟨hown, le_refl own⟩
  refine .voted voter pid p own _ true hauth hopen hown
    (.alone _ (.inr ⟨choice, amount, hcall⟩) hbase.1 hbase.2) ?_
  rw [hcast]
  rfl

theorem voteWithDelegators_move (hs : Ready c s) {voter : Address} {pid : ℕ} {support : Bool}
    {delegators : List Address} (hcall : i.call = .voteWithDelegators voter pid support delegators)
    (h : voteWithDelegators dao i.toEnv voter pid support delegators s = .ok t) : Move c i s t := by
  simp only [voteWithDelegators, bind_eq_ok, requireAuth_eq_ok] at h
  obtain ⟨_, _, _, hauth, p, hopen, _, _, ⟨own, s₁⟩, hlock, total, htotal, h⟩ := h
  obtain ⟨hown, rfl⟩ := lockBalance_ok hs hlock
  have hcast := castVote_ok h
  have hopen := getOpenProposal_ok hopen
  obtain ⟨rfl, hlocked⟩ := delegators_ok htotal
  refine .voted voter pid p own _ support hauth hopen hown (.delegated support delegators hcall hlocked)
    ?_
  rw [hcast]
  rfl

theorem lockForVote_move (hs : Ready c s) {voter : Address} {pid : ℕ}
    (hcall : i.call = .lockForVote voter pid)
    (h : lockForVote dao i.toEnv voter pid s = .ok t) : Move c i s t := by
  simp only [lockForVote, bind_eq_ok, requireAuth_eq_ok, pure_eq_ok] at h
  obtain ⟨_, _, _, hauth, p, hopen, ⟨own, s₁⟩, hlock, rfl⟩ := h
  obtain ⟨hown, rfl⟩ := lockBalance_ok hs hlock
  exact .locked voter pid p own hcall hauth (getOpenProposal_ok hopen) hown rfl

theorem unlockTokens_move (hs : Ready c s) {voter : Address} {pid : ℕ}
    (hcall : i.call = .unlockTokens voter pid)
    (h : unlockTokens dao i.toEnv voter pid s = .ok t) : Move c i s t := by
  simp only [unlockTokens, getProposal, getInstance, bind_eq_ok, okOr_eq_ok, rejectIf_eq_ok,
    pure_eq_ok, not_le, hs.token_eq, Option.some.injEq] at h
  obtain ⟨_, _, p, hp, _, hlate, amount, hlock, _, rfl, s₁, hpay, rfl⟩ := h
  rw [recordTransfer_ok hpay]
  exact .unlocked voter pid p amount hcall hp hlate hlock rfl

/-- Of the three ways out of `queue_proposal` only the last one returns. -/
theorem queueProposal_move (hs : Ready c s) {pid : ℕ} (hcall : i.call = .queueProposal pid)
    (h : queueProposal dao i.toEnv pid s = .ok t) : Move c i s t := by
  simp only [queueProposal, getProposal, getInstance, bind_eq_ok, okOr_eq_ok, rejectIf_eq_ok,
    checkedAdd_eq_some, not_not, not_le, hs.quorum_eq, Option.some.injEq] at h
  obtain ⟨_, _, p, hp, _, hstate, _, hlate, _, rfl, _, ⟨_, rfl⟩, h⟩ := h
  split at h
  · simp [failWith] at h
  · next hquorum =>
    rw [bind_eq_ok] at h
    obtain ⟨_, hparticipation, h⟩ := h
    split at h
    · simp [failWith] at h
    · next hmajority =>
      simp only [bind_eq_ok, unwrap_eq_ok, checkedAddU32_eq_some, pure_eq_ok, hs.delay_eq,
        Option.getD_some] at h
      obtain ⟨_, ⟨_, rfl⟩, rfl⟩ := h
      have hpassed : Passed c p :=
        ⟨not_le.mp hmajority, not_lt.mp hquorum, requireParticipation_ok hs hparticipation⟩
      exact .queued pid p hcall hp hstate hlate hpassed rfl

theorem executeProposal_move (hs : Ready c s) {pid : ℕ} (hcall : i.call = .executeProposal pid)
    (h : executeProposal dao i.toEnv pid s = .ok t) : Move c i s t := by
  simp only [executeProposal, getProposal, bind_eq_ok, okOr_eq_ok, rejectIf_eq_ok, pure_eq_ok,
    not_not, not_lt] at h
  obtain ⟨_, _, p, hp, _, hstate, _, heta, s₁, hpay, s₂, hdispatch, sample, _, h⟩ := h
  have hs₁ := refundIfBonded_ok hpay hs.token_eq
  have hs₂ := dispatchAction_ok hdispatch
  rw [updateQuorumEma_frame, hs₂, hs₁] at h
  refine .executed pid p hp (.inl ⟨hcall, hstate, heta⟩) ?_
  rw [← h]
  rfl

theorem emergencyExecuteProposal_move (hs : Ready c s) {council : Address} {pid : ℕ}
    (hcall : i.call = .emergencyExecuteProposal council pid)
    (h : emergencyExecuteProposal dao i.toEnv council pid s = .ok t) : Move c i s t := by
  simp only [emergencyExecuteProposal, getProposal, bind_eq_ok, okOr_eq_ok, rejectIf_eq_ok,
    requireAuth_eq_ok, not_not] at h
  obtain ⟨_, _, _, hstored, _, rfl, _, hauth, p, hp, _, hstate, s₁, hpay, hdispatch⟩ := h
  have hs₁ := refundIfBonded_ok hpay hs.token_eq
  have ht := dispatchAction_ok hdispatch
  have hlive : p.state = .active ∨ p.state = .queued := by
    by_contra hneither
    exact hstate (not_or.mp hneither)
  refine .executed pid p hp (.inr ⟨_, hcall, hstored, hauth, hlive⟩) ?_
  rw [ht, hs₁]
  rfl

theorem adminCancelProposal_move (hs : Ready c s) {pid : ℕ}
    (hcall : i.call = .adminCancelProposal pid)
    (h : adminCancelProposal dao i.toEnv pid s = .ok t) : Move c i s t := by
  simp only [adminCancelProposal, getProposal, bind_eq_ok, okOr_eq_ok, rejectIf_eq_ok, not_not] at h
  obtain ⟨_, _, _, _, _, _, p, hp, _, hstate, hpay⟩ := h
  refine .cancelled pid p _ _ hp hstate (.inl ⟨hcall, rfl, rfl⟩) ?_
  rw [slashIfBonded_ok hpay hs.token_eq hs.admin_eq]
  rfl

theorem cancelProposal_move (hs : Ready c s) {proposer : Address} {pid : ℕ}
    (hcall : i.call = .cancelProposal proposer pid)
    (h : cancelProposal dao i.toEnv proposer pid s = .ok t) : Move c i s t := by
  simp only [cancelProposal, getProposal, bind_eq_ok, okOr_eq_ok, rejectIf_eq_ok, not_not] at h
  obtain ⟨_, _, _, _, p, hp, _, rfl, _, hstate, _, _, hpay⟩ := h
  refine .cancelled pid p _ _ hp hstate (.inr ⟨hcall, rfl, rfl⟩) ?_
  rw [refundIfBonded_ok hpay hs.token_eq]
  rfl

theorem vetoProposal_move {pid : ℕ} (hcall : i.call = .vetoProposal pid)
    (h : vetoProposal i.toEnv pid s = .ok t) : Move c i s t := by
  simp only [vetoProposal, getProposal, bind_eq_ok, okOr_eq_ok, rejectIf_eq_ok, not_not,
    pure_eq_ok] at h
  obtain ⟨_, _, _, _, _, _, p, hp, _, hstate, rfl⟩ := h
  exact .dropped pid p hp (.inl ⟨hcall, hstate⟩) rfl

theorem proposerCancelProposal_move {proposer : Address} {pid : ℕ}
    (hcall : i.call = .proposerCancelProposal proposer pid)
    (h : proposerCancelProposal i.toEnv proposer pid s = .ok t) : Move c i s t := by
  simp only [proposerCancelProposal, getProposal, bind_eq_ok, okOr_eq_ok, rejectIf_eq_ok, not_not,
    pure_eq_ok] at h
  obtain ⟨_, _, _, _, p, hp, _, rfl, _, hstate, _, _, rfl⟩ := h
  exact .dropped pid p hp (.inr ⟨hcall, hstate⟩) rfl

theorem exec_move (hs : Ready c s) (h : exec i s = .ok t) : Move c i s t := by
  unfold exec at h
  cases hcall : i.call with
  | initializeDao =>
    simp only [hcall, initializeDao, bind_eq_ok, rejectIf_eq_ok] at h
    exact absurd hs.initialized_eq h.choose_spec.1
  | createProposal =>
    rw [hcall] at h
    exact createProposalWithConfig_move hs (by rw [hcall]; trivial) h
  | createProposalWithConfig =>
    rw [hcall] at h
    exact createProposalWithConfig_move hs (by rw [hcall]; trivial) h
  | vote =>
    rw [hcall] at h
    exact vote_move hs hcall h
  | voteChoice =>
    rw [hcall] at h
    exact voteChoice_move hs hcall h
  | voteWithDelegators =>
    rw [hcall] at h
    exact voteWithDelegators_move hs hcall h
  | lockForVote =>
    rw [hcall] at h
    exact lockForVote_move hs hcall h
  | unlockTokens =>
    rw [hcall] at h
    exact unlockTokens_move hs hcall h
  | delegate delegator delegatee =>
    simp only [hcall, delegate, bind_eq_ok, pure_eq_ok] at h
    obtain ⟨_, _, _, _, _, _, rfl⟩ := h
    exact .arranged (.inl ⟨_, _, hcall⟩) rfl
  | undelegate delegator =>
    simp only [hcall, undelegate, bind_eq_ok, pure_eq_ok] at h
    obtain ⟨_, _, _, _, rfl⟩ := h
    exact .arranged (.inr (.inl ⟨_, hcall⟩)) rfl
  | setSecurityCouncil admin council =>
    simp only [hcall, setSecurityCouncil, bind_eq_ok, pure_eq_ok] at h
    obtain ⟨_, _, _, _, _, _, _, _, rfl⟩ := h
    exact .arranged (.inr (.inr ⟨_, _, hcall⟩)) rfl
  | queueProposal =>
    rw [hcall] at h
    exact queueProposal_move hs hcall h
  | executeProposal =>
    rw [hcall] at h
    exact executeProposal_move hs hcall h
  | emergencyExecuteProposal =>
    rw [hcall] at h
    exact emergencyExecuteProposal_move hs hcall h
  | vetoProposal =>
    rw [hcall] at h
    exact vetoProposal_move hcall h
  | adminCancelProposal =>
    rw [hcall] at h
    exact adminCancelProposal_move hs hcall h
  | cancelProposal =>
    rw [hcall] at h
    exact cancelProposal_move hs hcall h
  | proposerCancelProposal =>
    rw [hcall] at h
    exact proposerCancelProposal_move hcall h

end Moves

section Ready
variable {dao : Deployment} {c : Config} {i : Invocation dao} {s t : State}

theorem initializeDao_ready {env : Env} {admin token : Address} {votingPeriod : ℕ}
    {quorum proposalBond : ℤ} {minQuorumBps maxQuorumBps quorumBps executionDelay : ℕ}
    (h : initializeDao env admin token votingPeriod quorum proposalBond minQuorumBps maxQuorumBps
      quorumBps executionDelay State.empty = .ok s) :
    admin ∈ env.auths ∧
      Ready ⟨admin, token, quorum, proposalBond, quorumBps, executionDelay⟩ s ∧
      s.proposals = ∅ ∧ s.lockedTokens = ∅ ∧ s.transfers = [] ∧ s.dispatched = [] := by
  simp only [initializeDao, bind_eq_ok, requireAuth_eq_ok, pure_eq_ok] at h
  obtain ⟨_, _, _, _, _, hauth, _, _, rfl⟩ := h
  refine ⟨hauth, ⟨rfl, rfl, rfl, rfl, rfl, rfl, rfl, rfl, rfl, rfl, ⟨0, rfl, ?_⟩, ?_, nonneg_empty⟩,
    rfl, rfl, rfl, rfl⟩
  · intro pid p hp
    simp [State.empty] at hp
  · intro pid p hp
    simp [State.empty] at hp

/-- Nothing is delegated and no payload is known. -/
theorem initializeDao_empty {env : Env} {admin token : Address} {votingPeriod : ℕ}
    {quorum proposalBond : ℤ} {minQuorumBps maxQuorumBps quorumBps executionDelay : ℕ}
    (h : initializeDao env admin token votingPeriod quorum proposalBond minQuorumBps maxQuorumBps
      quorumBps executionDelay State.empty = .ok s) :
    s.delegates = ∅ ∧ s.activePayloadHash = ∅ := by
  simp only [initializeDao, bind_eq_ok, pure_eq_ok] at h
  obtain ⟨_, _, _, _, _, _, _, _, rfl⟩ := h
  exact ⟨rfl, rfl⟩

/-- The next number is free. -/
theorem Ready.fresh (hs : Ready c s) {n : ℕ} (hcount : s.proposalCount = some n) :
    s.proposals.lookup n = none := by
  obtain ⟨m, hm, hbelow⟩ := hs.counted
  rw [hcount] at hm
  cases hm
  cases hp : s.proposals.lookup n with
  | none => rfl
  | some p => exact absurd (hbelow n p hp) (lt_irrefl n)

/-- A proposal under its own number, written over one that exists. -/
theorem Ready.setProposal (hs : Ready c s) {pid : ℕ} {p q : Proposal}
    (hp : s.proposals.lookup pid = some p) (hid : q.id = p.id) : Ready c (s.setProposal pid q) := by
  obtain ⟨n, hcount, hbelow⟩ := hs.counted
  have hpid := hs.ids pid p hp
  refine { hs with
    counted := ⟨n, hcount, fun j r hr => ?_⟩
    ids := fun j r hr => ?_ }
  · rw [State.setProposal, lookup_insert_ite] at hr
    split at hr
    · next hj =>
      rw [hj]
      exact hbelow pid p hp
    · exact hbelow j r hr
  · rw [State.setProposal, lookup_insert_ite] at hr
    split at hr
    · next hj =>
      cases hr
      rw [hid, hpid, hj]
    · exact hs.ids j r hr

theorem Ready.lock (hs : Ready c s) (house token : Address) (pid : ℕ) (voter : Address) {own : ℤ}
    (hown : 0 < own) : Ready c (s.lock house token pid voter own) :=
  { hs with locks_nonneg := hs.locks_nonneg.insert (le_of_lt hown) }

theorem exec_ready (hs : Ready c s) (h : exec i s = .ok t) : Ready c t := by
  cases exec_move hs h with
  | created p hcall hauth hcount hstate hyes hno hbond hsupply h =>
    obtain ⟨n, hn, hbelow⟩ := hs.counted
    rw [hcount] at hn
    cases hn
    rw [h]
    refine { hs with
      counted := ⟨p.id + 1, rfl, fun pid q hq => ?_⟩
      ids := fun pid q hq => ?_ }
    · dsimp only [State.setProposal] at hq
      rw [lookup_insert_ite] at hq
      split at hq
      · omega
      · have hold := hbelow pid q hq
        omega
    · dsimp only [State.setProposal] at hq
      rw [lookup_insert_ite] at hq
      split at hq
      · next hpid =>
        cases hq
        exact hpid.symm
      · exact hs.ids pid q hq
  | voted voter pid p own weight support hauth hopen hown hweight h =>
    rw [h]
    exact { (hs.lock _ _ _ _ hown).setProposal hopen.lookup_eq (withVotes_id p support weight) with }
  | locked voter pid p own hcall hauth hopen hown h =>
    subst h
    exact hs.lock _ _ _ _ hown
  | unlocked voter pid p amount hcall hp hlate hlock h =>
    subst h
    exact { hs with locks_nonneg := hs.locks_nonneg.erase _ }
  | arranged hcall h =>
    rw [h]
    exact { hs with }
  | queued pid p hcall hp hstate hlate hpassed h =>
    subst h
    exact hs.setProposal hp rfl
  | executed pid p hp hcall h =>
    rw [h]
    exact { hs.setProposal (q := { p with state := .executed }) hp rfl with }
  | cancelled pid p purpose target hp hstate hcall h =>
    subst h
    exact { hs.setProposal (q := { p with state := .cancelled }) hp rfl with }
  | dropped pid p hp hcall h =>
    subst h
    exact hs.setProposal hp rfl

end Ready

end SorobanKit.Dao
