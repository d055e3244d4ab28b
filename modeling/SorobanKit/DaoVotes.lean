import Mathlib.Algebra.BigOperators.Group.Finset.Basic
import Mathlib.Algebra.Order.BigOperators.Group.Finset
import SorobanKit.DaoMoves

set_option autoImplicit false

/-!
# One token, one vote

`vote_with_delegators` reads the locks of the delegators and keeps no record of what it counted.
The history of the calls knows: `uncountedAfter` follows the addresses whose present lock no vote
has counted. As long as a vote adds up different locks of this kind only, the votes and the
uncounted locks together stay below what was locked.
-/
namespace SorobanKit.Dao
open HostBalances HostInteger HostInvocation HostRuns HostTransfers

/-- What came in to be locked for a proposal. -/
def lockedFor (token house : Address) (pid : ℕ) (log : List (Transfer Purpose)) : ℤ :=
  sumOf (fun x => x.purpose = .lock pid ∧ x.token = token ∧ x.target = house) log

def Proposal.totalVotes (p : Proposal) : ℤ := p.yesVotes + p.noVotes

/-- The addresses whose present lock for a proposal no vote has counted, after a call returned. -/
def uncountedAfter {dao : Deployment} (pid : ℕ) (i : Invocation dao) (uncounted : Finset Address) :
    Finset Address :=
  match i.call with
  | .lockForVote voter id => if id = pid then insert voter uncounted else uncounted
  | .vote voter id _ => if id = pid then uncounted.erase voter else uncounted
  | .voteChoice voter id _ _ => if id = pid then uncounted.erase voter else uncounted
  | .voteWithDelegators voter id _ delegators =>
    if id = pid then uncounted.erase voter \ delegators.toFinset else uncounted
  | _ => uncounted

/-- A vote for delegators counts every lock once, and none that was counted before. -/
def CountsOnce (pid : ℕ) (uncounted : Finset Address) : Call → Prop
  | .voteWithDelegators voter id _ delegators =>
    id = pid → delegators.Nodup ∧ ∀ d ∈ delegators, d ∈ uncounted.erase voter
  | _ => True

instance (pid : ℕ) (uncounted : Finset Address) (call : Call) :
    Decidable (CountsOnce pid uncounted call) := by
  apply @Call.casesOn (fun call => Decidable (CountsOnce pid uncounted call)) call <;> intros <;> first
    | exact .isTrue trivial
    | exact inferInstanceAs (Decidable (_ = pid → _ ∧ _))

/-- What the addresses in a set have locked for a proposal. -/
def locksOf (pid : ℕ) (voters : Finset Address) (s : State) : ℤ :=
  ∑ v ∈ voters, entry s.lockedTokens (pid, v)

structure CountedOnce (c : Config) (house : Address) (pid : ℕ) (s : State)
    (uncounted : Finset Address) : Prop where
  ready : Ready c s
  bounded : (∀ p, s.proposals.lookup pid = some p → p.votingType = .linear) →
    part (fun _ p => p.totalVotes) s.proposals pid + locksOf pid uncounted s ≤
      lockedFor c.token house pid s.transfers

section Locks
variable {s : State} {house token voter : Address} {pid other : ℕ} {own : ℤ}
  {voters : Finset Address}

theorem lockedFor_append (xs ys : List (Transfer Purpose)) :
    lockedFor token house pid (xs ++ ys) =
      lockedFor token house pid xs + lockedFor token house pid ys :=
  sumOf_append _ xs ys

theorem lockedFor_bondPay {purpose : Purpose} {source target : Address} {bond : ℤ}
    (h : purpose ≠ .lock pid) :
    lockedFor token house pid (bondPay purpose token source target bond) = 0 := by
  apply sumOf_eq_zero
  unfold bondPay
  split <;> simp [h]

theorem lockedFor_lock : lockedFor token house pid (s.lock house token pid voter own).transfers =
    lockedFor token house pid s.transfers + own := by
  simp [State.lock, lockedFor]

theorem lockedFor_lock_other (h : other ≠ pid) :
    lockedFor token house pid (s.lock house token other voter own).transfers =
      lockedFor token house pid s.transfers := by
  simp [State.lock, lockedFor, h]

theorem locksOf_lock_other (h : other ≠ pid) :
    locksOf pid voters (s.lock house token other voter own) = locksOf pid voters s := by
  unfold locksOf
  refine Finset.sum_congr rfl fun v _ => ?_
  have hkey : (pid, v) ≠ (other, voter) := fun heq => h (Prod.mk.inj heq).1.symm
  exact entry_insert_of_ne _ _ hkey

theorem locksOf_erase_le (hs : NonnegEntries s.lockedTokens) (pid : ℕ) (voter : Address)
    (voters : Finset Address) :
    locksOf pid (voters.erase voter) s ≤ locksOf pid voters s :=
  Finset.sum_le_sum_of_subset_of_nonneg (Finset.erase_subset _ _) fun _ _ _ => hs.entry_nonneg _

theorem locksOf_lock_erase :
    locksOf pid (voters.erase voter) (s.lock house token pid voter own) =
      locksOf pid (voters.erase voter) s := by
  unfold locksOf
  refine Finset.sum_congr rfl fun v hv => ?_
  have hkey : (pid, v) ≠ (pid, voter) := fun heq => (Finset.mem_erase.mp hv).1 (Prod.mk.inj heq).2
  exact entry_insert_of_ne _ _ hkey

theorem locksOf_lock_insert (hs : NonnegEntries s.lockedTokens) (house token : Address) (pid : ℕ)
    (voter : Address) (own : ℤ) (voters : Finset Address) :
    locksOf pid (insert voter voters) (s.lock house token pid voter own) ≤
      own + locksOf pid voters s := by
  have hsplit : insert voter voters = insert voter (voters.erase voter) := by
    rw [← Finset.erase_insert_eq_erase, Finset.insert_erase (Finset.mem_insert_self _ _)]
  have hself : entry (s.lock house token pid voter own).lockedTokens (pid, voter) = own :=
    entry_insert_self _ _ _
  rw [hsplit, locksOf, Finset.sum_insert (Finset.notMem_erase _ _), hself]
  change own + locksOf pid (voters.erase voter) _ ≤ _
  rw [locksOf_lock_erase]
  have hle := locksOf_erase_le hs pid voter voters
  omega

theorem locksOf_sdiff (pid : ℕ) (s : State) {delegators : List Address} (hnodup : delegators.Nodup)
    (hsub : ∀ d ∈ delegators, d ∈ voters) :
    locksOf pid (voters \ delegators.toFinset) s + delegatedWeight pid delegators s =
      locksOf pid voters s := by
  have hsum : delegatedWeight pid delegators s = locksOf pid delegators.toFinset s :=
    (List.sum_toFinset _ hnodup).symm
  rw [hsum]
  exact Finset.sum_sdiff fun d hd => hsub d (List.mem_toFinset.mp hd)

end Locks

section Votes
variable {dao : Deployment} {c : Config} {i : Invocation dao} {s t : State} {pid : ℕ}
  {uncounted : Finset Address} {voter : Address} {p : Proposal} {own weight : ℤ}

theorem cap_le (p : Proposal) (amount : ℤ) : p.cap amount ≤ amount := by
  unfold Proposal.cap
  split <;> omega

theorem withVotes_totalVotes (p : Proposal) (support : Bool) (weight : ℤ) :
    (p.withVotes support weight).totalVotes = p.totalVotes + weight := by
  cases support <;> simp only [Proposal.withVotes, Proposal.totalVotes, Bool.false_eq_true,
    ↓reduceIte] <;> omega

/-- A vote weighs at most the tokens of the voter and the locks it takes out of the uncounted
    ones. -/
theorem Weight.counted (hlinear : ∀ x, dao.applyVotingType .linear x = x)
    (hp : p.votingType = .linear) (honce : CountsOnce pid uncounted i.call)
    (hweight : Weight dao i.call voter pid (s.lock dao.house c.token pid voter own) p own weight) :
    weight + locksOf pid (uncountedAfter pid i uncounted) (s.lock dao.house c.token pid voter own) ≤
      own + locksOf pid (uncounted.erase voter) s := by
  cases hweight with
  | alone base hcall hpos hbase =>
    have hafter : uncountedAfter pid i uncounted = uncounted.erase voter := by
      unfold uncountedAfter
      rcases hcall with ⟨support, hcall⟩ | ⟨choice, amount, hcall⟩ <;> simp [hcall]
    have hcap := cap_le p base
    rw [hafter, locksOf_lock_erase, hp, hlinear]
    omega
  | delegated support delegators hcall hlocked =>
    have hafter : uncountedAfter pid i uncounted = uncounted.erase voter \ delegators.toFinset := by
      simp [uncountedAfter, hcall]
    rw [hcall] at honce
    obtain ⟨hnodup, hsub⟩ := honce rfl
    have hsplit := locksOf_sdiff pid (s.lock dao.house c.token pid voter own) hnodup hsub
    have hcap := cap_le p (own + delegatedWeight pid delegators
      (s.lock dao.house c.token pid voter own))
    rw [locksOf_lock_erase] at hsplit
    rw [hafter]
    omega

theorem CountedOnce.rewritten (hs : CountedOnce c dao.house pid s uncounted) {other : ℕ}
    {p q : Proposal} (hp : s.proposals.lookup other = some p) (hvotes : q.totalVotes = p.totalVotes)
    (htype : q.votingType = p.votingType) (hready : Ready c t)
    (hproposals : t.proposals = s.proposals.insert other q) (hlocks : t.lockedTokens = s.lockedTokens)
    (hin : lockedFor c.token dao.house pid t.transfers = lockedFor c.token dao.house pid s.transfers) :
    CountedOnce c dao.house pid t uncounted := by
  refine ⟨hready, fun hlinear => ?_⟩
  have hpart : part (fun _ p => p.totalVotes) t.proposals pid =
      part (fun _ p => p.totalVotes) s.proposals pid := by
    unfold part
    rw [hproposals, lookup_insert_ite]
    split
    · next heq =>
      rw [heq, hp, Option.map_some, Option.map_some, Option.getD_some, Option.getD_some]
      exact hvotes
    · rfl
  have hold := hs.bounded fun r hr => ?_
  · unfold locksOf at hold ⊢
    rw [hpart, hlocks, hin]
    exact hold
  · by_cases heq : pid = other
    · rw [heq, hp] at hr
      cases hr
      rw [← htype]
      exact hlinear q (by rw [hproposals, heq, Finmap.lookup_insert])
    · exact hlinear r (by rw [hproposals, Finmap.lookup_insert_of_ne _ heq, hr])

theorem uncountedAfter_of_none (h : i.call.lockKey = none) :
    uncountedAfter pid i uncounted = uncounted := by
  unfold uncountedAfter
  cases hcall : i.call <;> simp [hcall, Call.lockKey] at h ⊢

theorem Weight.uncounted_other {other : ℕ} (hne : other ≠ pid)
    (hweight : Weight dao i.call voter other s p own weight) :
    uncountedAfter pid i uncounted = uncounted := by
  unfold uncountedAfter
  cases hweight with
  | alone base hcall hpos hbase =>
    rcases hcall with ⟨support, hcall⟩ | ⟨choice, amount, hcall⟩ <;> simp [hcall, hne]
  | delegated support delegators hcall hlocked => simp [hcall, hne]

theorem CountedOnce.created (hs : CountedOnce c dao.house pid s uncounted)
    (hcount : s.proposalCount = some p.id) (hyes : p.yesVotes = 0) (hno : p.noVotes = 0)
    (hready : Ready c t)
    (h : t = { s.setProposal p.id p with
      proposalCount := some (p.id + 1), activePayloadHash := t.activePayloadHash,
      transfers := s.transfers ++
        bondPay (.bond p.id) c.token p.proposer dao.house p.bondAmount }) :
    CountedOnce c dao.house pid t uncounted := by
  have hfresh := hs.ready.fresh hcount
  have hpart : part (fun _ p => p.totalVotes) t.proposals pid =
      part (fun _ p => p.totalVotes) s.proposals pid := by
    rw [h]
    dsimp only [State.setProposal]
    by_cases heq : pid = p.id
    · rw [heq, part_of_none hfresh, part_of_lookup (Finmap.lookup_insert _), Proposal.totalVotes,
        hyes, hno, add_zero]
    · rw [part, Finmap.lookup_insert_of_ne _ heq, part]
  have hin : lockedFor c.token dao.house pid t.transfers =
      lockedFor c.token dao.house pid s.transfers := by
    rw [h]
    dsimp only
    rw [lockedFor_append, lockedFor_bondPay (by simp), add_zero]
  have hlocks : t.lockedTokens = s.lockedTokens := by
    rw [h]
    rfl
  refine ⟨hready, fun hlin => ?_⟩
  have hold := hs.bounded fun q hq => hlin q ?_
  · unfold locksOf at hold ⊢
    rw [hpart, hlocks, hin]
    exact hold
  · have hne : pid ≠ p.id := by
      rintro rfl
      rw [hfresh] at hq
      cases hq
    rw [h]
    dsimp only [State.setProposal]
    rw [Finmap.lookup_insert_of_ne _ hne, hq]

theorem CountedOnce.voted (hs : CountedOnce c dao.house pid s uncounted)
    (hlinear : ∀ x, dao.applyVotingType .linear x = x) (honce : CountsOnce pid uncounted i.call)
    {other : ℕ} {support : Bool} (hopen : Open i.sequence s other p)
    (hweight : Weight dao i.call voter other (s.lock dao.house c.token other voter own) p own weight)
    (hready : Ready c t)
    (h : t = { (s.lock dao.house c.token other voter own).setProposal other
        (p.withVotes support weight) with
      votes := s.votes.insert (other, voter) weight, choiceTally := t.choiceTally }) :
    CountedOnce c dao.house pid t (uncountedAfter pid i uncounted) := by
  have hproposals : t.proposals = s.proposals.insert other (p.withVotes support weight) := by
    rw [h]
    rfl
  have hlocks : t.lockedTokens = (s.lock dao.house c.token other voter own).lockedTokens := by
    rw [h]
    rfl
  have htransfers : t.transfers = (s.lock dao.house c.token other voter own).transfers := by
    rw [h]
    rfl
  refine ⟨hready, fun hlin => ?_⟩
  have hsame : locksOf pid (uncountedAfter pid i uncounted) t =
      locksOf pid (uncountedAfter pid i uncounted) (s.lock dao.house c.token other voter own) := by
    unfold locksOf
    rw [hlocks]
  rw [hsame, htransfers, hproposals]
  by_cases heq : other = pid
  · subst heq
    have htype : p.votingType = .linear := by
      rw [← withVotes_votingType p support weight]
      exact hlin _ (by rw [hproposals, Finmap.lookup_insert])
    have hold := hs.bounded fun q hq => by
      rw [hopen.lookup_eq] at hq
      cases hq
      exact htype
    have hcounted := hweight.counted hlinear htype honce
    have hless := locksOf_erase_le hs.ready.locks_nonneg other voter uncounted
    rw [part_of_lookup hopen.lookup_eq] at hold
    rw [part_of_lookup (Finmap.lookup_insert _), withVotes_totalVotes, lockedFor_lock]
    omega
  · have hpart : part (fun _ p => p.totalVotes)
          (s.proposals.insert other (p.withVotes support weight)) pid =
        part (fun _ p => p.totalVotes) s.proposals pid := by
      rw [part, Finmap.lookup_insert_of_ne _ (Ne.symm heq), part]
    rw [hpart, hweight.uncounted_other heq, locksOf_lock_other heq, lockedFor_lock_other heq]
    refine hs.bounded fun q hq => hlin q ?_
    rw [hproposals, Finmap.lookup_insert_of_ne _ (Ne.symm heq), hq]

theorem CountedOnce.locked (hs : CountedOnce c dao.house pid s uncounted) {voter : Address} {other : ℕ}
    {own : ℤ} (hready : Ready c (s.lock dao.house c.token other voter own))
    (hcall : i.call = .lockForVote voter other) :
    CountedOnce c dao.house pid (s.lock dao.house c.token other voter own)
      (uncountedAfter pid i uncounted) := by
  refine ⟨hready, fun hlin => ?_⟩
  have hold := hs.bounded hlin
  by_cases heq : other = pid
  · subst heq
    have hins := locksOf_lock_insert hs.ready.locks_nonneg dao.house c.token other voter own uncounted
    have hafter : uncountedAfter other i uncounted = insert voter uncounted := by
      simp [uncountedAfter, hcall]
    rw [hafter, lockedFor_lock]
    change part _ s.proposals other + _ ≤ _
    omega
  · have hafter : uncountedAfter pid i uncounted = uncounted := by
      simp [uncountedAfter, hcall, heq]
    rw [hafter, locksOf_lock_other heq, lockedFor_lock_other heq]
    exact hold

theorem CountedOnce.unlocked (hs : CountedOnce c dao.house pid s uncounted) {voter : Address}
    {other : ℕ} {amount : ℤ}
    (hready : Ready c { s with
      lockedTokens := s.lockedTokens.erase (other, voter),
      transfers := s.transfers ++ [⟨.unlock other, c.token, dao.house, voter, amount⟩] }) :
    CountedOnce c dao.house pid { s with
      lockedTokens := s.lockedTokens.erase (other, voter),
      transfers := s.transfers ++ [⟨.unlock other, c.token, dao.house, voter, amount⟩] }
      uncounted := by
  refine ⟨hready, fun hlin => ?_⟩
  have hold := hs.bounded hlin
  have hless : locksOf pid uncounted { s with lockedTokens := s.lockedTokens.erase (other, voter) } ≤
      locksOf pid uncounted s := by
    refine Finset.sum_le_sum fun v _ => ?_
    dsimp only
    by_cases hkey : (pid, v) = (other, voter)
    · rw [hkey, entry_erase_self]
      exact hs.ready.locks_nonneg.entry_nonneg _
    · rw [entry_erase_of_ne _ hkey]
  have hin : lockedFor c.token dao.house pid [⟨.unlock other, c.token, dao.house, voter, amount⟩] = 0 :=
    sumOf_eq_zero (by simp)
  dsimp only
  rw [lockedFor_append, hin]
  change _ + locksOf pid uncounted { s with lockedTokens := s.lockedTokens.erase (other, voter) } ≤ _
  omega

end Votes

section Steps
variable {dao : Deployment} {c : Config} {i : Invocation dao} {s t : State} {pid : ℕ}
  {uncounted : Finset Address}

theorem exec_countedOnce (hs : CountedOnce c dao.house pid s uncounted)
    (hlinear : ∀ x, dao.applyVotingType .linear x = x) (honce : CountsOnce pid uncounted i.call)
    (h : exec i s = .ok t) : CountedOnce c dao.house pid t (uncountedAfter pid i uncounted) := by
  have hready := exec_ready hs.ready h
  cases exec_move hs.ready h with
  | created p hcall hauth hcount hstate hyes hno hbond hsupply h =>
    rw [uncountedAfter_of_none hcall.lockKey_eq]
    exact hs.created hcount hyes hno hready h
  | voted voter other p own weight support hauth hopen hown hweight h =>
    exact hs.voted hlinear honce hopen hweight hready h
  | locked voter other p own hcall hauth hopen hown h =>
    subst h
    exact hs.locked hready hcall
  | unlocked voter other p amount hcall hp hlate hlock h =>
    rw [uncountedAfter_of_none (by rw [hcall]; rfl)]
    subst h
    exact hs.unlocked hready
  | arranged hcall h =>
    have hnone : i.call.lockKey = none := by
      rcases hcall with ⟨_, _, hcall⟩ | ⟨_, hcall⟩ | ⟨_, _, hcall⟩ <;> rw [hcall] <;> rfl
    rw [uncountedAfter_of_none hnone, h]
    exact ⟨h ▸ hready, hs.bounded⟩
  | queued other p hcall hp hstate hlate hpassed h =>
    rw [uncountedAfter_of_none (by rw [hcall]; rfl)]
    exact hs.rewritten
      (q := { p with state := .queued, executionEta := p.deadline + c.executionDelay }) hp rfl rfl hready
      (by rw [h]; rfl) (by rw [h]; rfl) (by rw [h]; rfl)
  | executed other p hp hcall h =>
    have hnone : i.call.lockKey = none := by
      rcases hcall with ⟨hcall, _⟩ | ⟨_, hcall, _⟩ <;> rw [hcall] <;> rfl
    rw [uncountedAfter_of_none hnone]
    refine hs.rewritten (q := { p with state := .executed }) hp rfl rfl hready (by rw [h]; rfl)
      (by rw [h]; rfl) ?_
    rw [h]
    dsimp only
    rw [lockedFor_append, lockedFor_bondPay (by simp), add_zero]
  | cancelled other p purpose target hp hstate hcall h =>
    have hnone : i.call.lockKey = none ∧ purpose ≠ .lock pid := by
      rcases hcall with ⟨hcall, rfl, _⟩ | ⟨hcall, rfl, _⟩ <;> rw [hcall] <;> simp [Call.lockKey]
    rw [uncountedAfter_of_none hnone.1]
    refine hs.rewritten (q := { p with state := .cancelled }) hp rfl rfl hready (by rw [h]; rfl)
      (by rw [h]; rfl) ?_
    rw [h]
    dsimp only
    rw [lockedFor_append, lockedFor_bondPay hnone.2, add_zero]
  | dropped other p hp hcall h =>
    have hnone : i.call.lockKey = none := by
      rcases hcall with ⟨hcall, _⟩ | ⟨hcall, _⟩ <;> rw [hcall] <;> rfl
    rw [uncountedAfter_of_none hnone]
    exact hs.rewritten (q := { p with state := .cancelled }) hp rfl rfl hready (by rw [h]; rfl)
      (by rw [h]; rfl) (by rw [h]; rfl)

end Steps

theorem initializeDao_countedOnce {dao : Deployment} {env : Env} {admin token : Address}
    {votingPeriod : ℕ} {quorum proposalBond : ℤ} {minQuorumBps maxQuorumBps quorumBps executionDelay : ℕ}
    {s : State} (pid : ℕ) (h : initializeDao env admin token votingPeriod quorum proposalBond
      minQuorumBps maxQuorumBps quorumBps executionDelay State.empty = .ok s) :
    CountedOnce ⟨admin, token, quorum, proposalBond, quorumBps, executionDelay⟩ dao.house pid s ∅ := by
  obtain ⟨_, hready, hproposals, _, htransfers, _⟩ := initializeDao_ready h
  refine ⟨hready, fun _ => ?_⟩
  rw [hproposals, htransfers]
  exact le_refl 0

/-- In every run whose votes for delegators count different locks that no vote counted before, the
    votes on a linear proposal are at most the tokens that were locked for it. -/
theorem votes_bounded (dao : Deployment) (hlinear : ∀ x, dao.applyVotingType .linear x = x)
    (admin token : Address) (votingPeriod : ℕ) (quorum proposalBond : ℤ)
    (minQuorumBps maxQuorumBps quorumBps executionDelay : ℕ) (i₀ : Invocation dao) (s : State)
    (hcall : i₀.call = .initializeDao admin token votingPeriod quorum proposalBond minQuorumBps
      maxQuorumBps quorumBps executionDelay)
    (hinit : exec i₀ State.empty = .ok s) (is : List (Invocation dao)) (pid : ℕ)
    (honce : ∀ e ∈ history (noting exec (uncountedAfter pid)) (s, ∅) is,
      CountsOnce pid e.before.2 e.invocation.call) :
    ∀ p, (run s is).proposals.lookup pid = some p → p.votingType = .linear →
      p.yesVotes + p.noVotes ≤ lockedFor token dao.house pid (run s is).transfers := by
  let c : Config := ⟨admin, token, quorum, proposalBond, quorumBps, executionDelay⟩
  have hs : CountedOnce c dao.house pid s ∅ := by
    unfold exec at hinit
    rw [hcall] at hinit
    exact initializeDao_countedOnce pid hinit
  have hrun : CountedOnce c dao.house pid (run s is)
      (HostRuns.run (noting exec (uncountedAfter pid)) (s, ∅) is).2 := by
    have hpair := run_invariant_along (s := (s, ∅))
      (I := fun x => CountedOnce c dao.house pid x.1 x.2)
      (fun x (i : Invocation dao) y hx hi hy => by
        obtain ⟨hexec, hnote⟩ := noting_ok hy
        rw [hnote]
        exact exec_countedOnce hx hlinear (hi y hy) hexec)
      hs (along_of_history (Q := fun x (i : Invocation dao) => CountsOnce pid x.2 i.call) honce)
    rwa [run_noting_fst] at hpair
  intro p hp htype
  have hbounded := hrun.bounded fun q hq => by
    rw [hp] at hq
    cases hq
    exact htype
  have hnonneg : 0 ≤ locksOf pid (HostRuns.run (noting exec (uncountedAfter pid)) (s, ∅) is).2
      (run s is) := Finset.sum_nonneg fun _ _ => hrun.ready.locks_nonneg.entry_nonneg _
  rw [part_of_lookup hp] at hbounded
  exact le_trans (le_add_of_nonneg_right hnonneg) hbounded

/-- Bob votes for himself and for Alice, who delegated to him. -/
def demoVotes (delegators : List Address) : List (Invocation demoDao) :=
  [demoCreate .standard, demoCall 3 (.delegate demoAlice demoBob),
    demoCall 4 (.lockForVote demoAlice 0), demoCall 5 (.voteWithDelegators demoBob 0 true delegators)]

theorem votes_bounded_demo :
    ((run (run State.empty [demoInitialize 0]) (demoVotes [demoAlice])).proposals.lookup 0).map
        Proposal.totalVotes = some 200 ∧
      200 ≤ lockedFor demoToken demoDao.house 0
        (run (run State.empty [demoInitialize 0]) (demoVotes [demoAlice])).transfers := by
  have hvotes : ((run (run State.empty [demoInitialize 0]) (demoVotes [demoAlice])).proposals.lookup
      0).map (fun p => (p.totalVotes, p.votingType)) = some (200, .linear) := by decide +kernel
  obtain ⟨p, hp, hsame⟩ := Option.map_eq_some_iff.mp hvotes
  obtain ⟨htotal, htype⟩ := Prod.mk.inj hsame
  have hbounded := votes_bounded demoDao (fun _ => rfl) demoAdmin demoToken 10 50 0 0 0 0 5
    (demoInitialize 0) (run State.empty [demoInitialize 0]) rfl rfl (demoVotes [demoAlice]) 0
    (by decide +kernel) p hp htype
  refine ⟨?_, ?_⟩
  · rw [hp, Option.map_some, htotal]
  · rw [← htotal]
    exact hbounded

/-- Listed twice, the 100 tokens of Alice count twice; and after Bob voted with them, Carol votes with
    them again once Alice delegates to her. -/
theorem delegated_lock_counted_twice :
    let repeated := run State.empty (demoInitialize 0 :: demoVotes [demoAlice, demoAlice])
    let passedOn := run State.empty (demoInitialize 0 :: demoVotes [demoAlice] ++
      [demoCall 6 (.delegate demoAlice demoCarol),
        demoCall 7 (.voteWithDelegators demoCarol 0 true [demoAlice])])
    ((repeated.proposals.lookup 0).map (fun p => p.yesVotes) = some 300 ∧
      lockedFor demoToken demoDao.house 0 repeated.transfers = 200) ∧
    (passedOn.proposals.lookup 0).map (fun p => p.yesVotes) = some 400 ∧
      lockedFor demoToken demoDao.house 0 passedOn.transfers = 300 := by
  decide +kernel

end SorobanKit.Dao
