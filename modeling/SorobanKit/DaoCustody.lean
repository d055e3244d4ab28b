import SorobanKit.DaoMoves

set_option autoImplicit false

/-!
# Custody of the locked tokens

`LockedTokens` is written by whoever locks, over what it held before. As long as no address locks
for a proposal it has a lock for, the contract holds the locks and the bonds, and every lock comes
back after the deadline.
-/
namespace SorobanKit.Dao
open HostBalances HostInteger HostInvocation HostRuns HostTransfers

def bondPaid (pid : ℕ) (log : List (Transfer Purpose)) : Bool :=
  log.any fun x => x.purpose = .bondRefund pid ∨ x.purpose = .bondSlash pid

/-- The positive bonds that were not paid out. -/
def unpaidBonds (s : State) : ℤ :=
  sumBy (fun pid p => if bondPaid pid s.transfers then 0 else max p.bondAmount 0) s.proposals

def lockedBy (pid : ℕ) (voter : Address) (log : List (Transfer Purpose)) : ℤ :=
  sumOf (fun x => x.purpose = .lock pid ∧ x.source = voter) log

def unlockedBy (pid : ℕ) (voter : Address) (log : List (Transfer Purpose)) : ℤ :=
  sumOf (fun x => x.purpose = .unlock pid ∧ x.target = voter) log

/-- The calls of a run that proposes, delegates, votes, locks and unlocks. -/
def Call.Locking : Call → Prop
  | .createProposal .. | .createProposalWithConfig .. | .vote .. | .voteChoice ..
  | .voteWithDelegators .. | .lockForVote .. | .unlockTokens .. | .delegate .. | .undelegate .. => True
  | _ => False

/-- A lock by an address that has one for the same proposal. -/
def Relocks (s : State) (call : Call) : Prop := ∃ key ∈ call.lockKey, key ∈ s.lockedTokens

instance (s : State) (call : Call) : Decidable (Relocks s call) :=
  inferInstanceAs (Decidable (∃ key ∈ call.lockKey, key ∈ s.lockedTokens))

structure Custody (c : Config) (house : Address) (s : State) : Prop where
  ready : Ready c s
  locks : ∀ pid voter amount, s.lockedTokens.lookup (pid, voter) = some amount →
    0 < amount ∧ voter ≠ house ∧ ∃ p, s.proposals.lookup pid = some p
  unpaid : ∀ pid, bondPaid pid s.transfers = false
  gain_eq : gain c.token house s.transfers =
    total s.lockedTokens + sumBy (fun _ p => max p.bondAmount 0) s.proposals
  each_eq : ∀ pid voter, lockedBy pid voter s.transfers =
    unlockedBy pid voter s.transfers + entry s.lockedTokens (pid, voter)

section Log
variable {house token voter : Address} {pid other : ℕ} {log : List (Transfer Purpose)}

theorem bondPaid_append (xs ys : List (Transfer Purpose)) :
    bondPaid pid (xs ++ ys) = (bondPaid pid xs || bondPaid pid ys) :=
  List.any_append

theorem lockedBy_snoc (x : Transfer Purpose) : lockedBy pid voter (log ++ [x]) =
    lockedBy pid voter log + if x.purpose = .lock pid ∧ x.source = voter then x.amount else 0 := by
  simp [lockedBy]

theorem unlockedBy_snoc (x : Transfer Purpose) : unlockedBy pid voter (log ++ [x]) =
    unlockedBy pid voter log + if x.purpose = .unlock pid ∧ x.target = voter then x.amount else 0 := by
  simp [unlockedBy]

theorem bondPay_incoming {proposer : Address} (hne : proposer ≠ house) (token voter : Address)
    (pid other : ℕ) (bond : ℤ) :
    gain token house (bondPay (.bond other) token proposer house bond) = max bond 0 ∧
      bondPaid pid (bondPay (.bond other) token proposer house bond) = false ∧
      lockedBy pid voter (bondPay (.bond other) token proposer house bond) = 0 ∧
      unlockedBy pid voter (bondPay (.bond other) token proposer house bond) = 0 := by
  unfold bondPay
  split
  · refine ⟨?_, by simp [bondPaid], by simp [lockedBy], by simp [unlockedBy]⟩
    rw [gain_incoming _ _ hne]
    omega
  · refine ⟨?_, rfl, rfl, rfl⟩
    rw [gain_nil]
    omega

end Log

section Invariant
variable {dao : Deployment} {c : Config} {i : Invocation dao} {s t : State}

theorem Invocation.ne_house {a : Address} (ha : a ∈ i.auths) : a ≠ dao.house := by
  rintro rfl
  exact i.outside ha

theorem Custody.unpaidBonds_eq (hs : Custody c dao.house s) :
    unpaidBonds s = sumBy (fun _ p => max p.bondAmount 0) s.proposals := by
  unfold unpaidBonds
  simp only [hs.unpaid, Bool.false_eq_true, ↓reduceIte]

/-- A lock into a free slot. -/
theorem Custody.lock (hs : Custody c dao.house s) {voter : Address} {pid : ℕ} {p : Proposal}
    {own : ℤ} (hne : voter ≠ dao.house) (hp : s.proposals.lookup pid = some p) (hown : 0 < own)
    (hfree : (pid, voter) ∉ s.lockedTokens) :
    Custody c dao.house (s.lock dao.house c.token pid voter own) := by
  have hnone : entry s.lockedTokens (pid, voter) = 0 := by
    rw [entry, Finmap.lookup_eq_none.mpr hfree, Option.getD_none]
  have hgain := hs.gain_eq
  refine ⟨hs.ready.lock _ _ _ _ hown, fun other holder amount hlock => ?_, fun other => ?_, ?_,
    fun other holder => ?_⟩
  · dsimp only [State.lock] at hlock ⊢
    rw [lookup_insert_ite] at hlock
    split at hlock
    · next hkey =>
      cases hkey
      cases hlock
      exact ⟨hown, hne, p, hp⟩
    · exact hs.locks other holder amount hlock
  · dsimp only [State.lock]
    rw [bondPaid_append, hs.unpaid]
    simp [bondPaid]
  · dsimp only [State.lock]
    rw [gain_append, gain_incoming _ _ hne, total_insert, hnone]
    omega
  · have heach := hs.each_eq other holder
    dsimp only [State.lock]
    rw [lockedBy_snoc, unlockedBy_snoc, if_neg (c := _ ∧ dao.house = holder) (by simp)]
    by_cases hkey : (other, holder) = (pid, voter)
    · cases hkey
      rw [if_pos ⟨rfl, rfl⟩, entry_insert_self]
      dsimp only
      omega
    · have hdiff : ¬ (Purpose.lock pid = .lock other ∧ voter = holder) := by
        rintro ⟨hpid, rfl⟩
        cases hpid
        exact hkey rfl
      rw [if_neg hdiff, entry_insert_of_ne _ _ hkey]
      omega

/-- A proposal rewritten with the same bond. -/
theorem Custody.setProposal (hs : Custody c dao.house s) {pid : ℕ} {p q : Proposal}
    (hp : s.proposals.lookup pid = some p) (hid : q.id = p.id) (hbond : q.bondAmount = p.bondAmount) :
    Custody c dao.house (s.setProposal pid q) := by
  refine { hs with
    ready := hs.ready.setProposal hp hid
    locks := fun other voter amount hlock => ?_
    gain_eq := ?_ }
  · obtain ⟨hpos, hne, r, hr⟩ := hs.locks other voter amount hlock
    refine ⟨hpos, hne, ?_⟩
    dsimp only [State.setProposal]
    rw [lookup_insert_ite]
    split
    · exact ⟨q, rfl⟩
    · exact ⟨r, hr⟩
  · have hgain := hs.gain_eq
    dsimp only [State.setProposal]
    rw [sumBy_insert, part_of_lookup hp, hbond]
    omega

theorem Custody.created (hs : Custody c dao.house s) {p : Proposal}
    (hcount : s.proposalCount = some p.id) (hne : p.proposer ≠ dao.house) (hready : Ready c t)
    (h : t = { s.setProposal p.id p with
      proposalCount := some (p.id + 1), activePayloadHash := t.activePayloadHash,
      transfers := s.transfers ++
        bondPay (.bond p.id) c.token p.proposer dao.house p.bondAmount }) :
    Custody c dao.house t := by
  have hfresh := hs.ready.fresh hcount
  have hgain := hs.gain_eq
  rw [h] at hready ⊢
  refine { hs with
    ready := hready
    locks := fun pid voter amount hlock => ?_
    unpaid := fun pid => ?_
    gain_eq := ?_
    each_eq := fun pid voter => ?_ }
  · obtain ⟨hpos, hvoter, r, hr⟩ := hs.locks pid voter amount hlock
    refine ⟨hpos, hvoter, ?_⟩
    dsimp only [State.setProposal]
    rw [lookup_insert_ite]
    split
    · exact ⟨p, rfl⟩
    · exact ⟨r, hr⟩
  · obtain ⟨_, hpaid, _⟩ := bondPay_incoming hne c.token p.proposer pid p.id p.bondAmount
    dsimp only
    rw [bondPaid_append, hs.unpaid, hpaid, Bool.or_self]
  · obtain ⟨hin, _⟩ := bondPay_incoming hne c.token p.proposer p.id p.id p.bondAmount
    dsimp only [State.setProposal]
    rw [gain_append, hin, sumBy_insert, part_of_none hfresh]
    omega
  · obtain ⟨_, _, hlocked, hunlocked⟩ := bondPay_incoming hne c.token voter pid p.id p.bondAmount
    have heach := hs.each_eq pid voter
    unfold lockedBy unlockedBy at heach
    unfold lockedBy at hlocked ⊢
    unfold unlockedBy at hunlocked ⊢
    dsimp only
    rw [sumOf_append, sumOf_append, hlocked, hunlocked, add_zero, add_zero]
    exact heach

/-- The tokens go back where they came from. -/
theorem Custody.unlocked (hs : Custody c dao.house s) {voter : Address} {pid : ℕ} {amount : ℤ}
    (hlock : s.lockedTokens.lookup (pid, voter) = some amount) :
    Custody c dao.house { s with
      lockedTokens := s.lockedTokens.erase (pid, voter),
      transfers := s.transfers ++ [⟨.unlock pid, c.token, dao.house, voter, amount⟩] } := by
  obtain ⟨hpos, hne, _⟩ := hs.locks pid voter amount hlock
  have hentry : entry s.lockedTokens (pid, voter) = amount := by
    rw [entry, hlock, Option.getD_some]
  have hgain := hs.gain_eq
  refine { hs with
    ready := { hs.ready with locks_nonneg := hs.ready.locks_nonneg.erase _ }
    locks := fun other holder value hslot => ?_
    unpaid := fun other => ?_
    gain_eq := ?_
    each_eq := fun other holder => ?_ }
  · exact hs.locks other holder value (of_lookup_erase hslot).2
  · dsimp only
    rw [bondPaid_append, hs.unpaid]
    simp [bondPaid]
  · dsimp only
    rw [gain_append, gain_outgoing _ _ hne, total_erase, hentry]
    omega
  · have heach := hs.each_eq other holder
    dsimp only
    rw [lockedBy_snoc, unlockedBy_snoc, if_neg (c := _ ∧ dao.house = holder) (by simp)]
    by_cases hkey : (other, holder) = (pid, voter)
    · cases hkey
      rw [if_pos ⟨rfl, rfl⟩, entry_erase_self]
      dsimp only
      omega
    · have hdiff : ¬ (Purpose.unlock pid = .unlock other ∧ voter = holder) := by
        rintro ⟨hpid, rfl⟩
        cases hpid
        exact hkey rfl
      rw [if_neg hdiff, entry_erase_of_ne _ hkey]
      omega

theorem exec_custody (hs : Custody c dao.house s) (hcalls : i.call.Locking)
    (hfree : ¬ Relocks s i.call) (h : exec i s = .ok t) : Custody c dao.house t := by
  have hready := exec_ready hs.ready h
  cases exec_move hs.ready h with
  | created p hcall hauth hcount hstate hyes hno hbond hsupply h =>
    exact hs.created hcount (Invocation.ne_house hauth) hready h
  | voted voter pid p own weight support hauth hopen hown hweight h =>
    have hlocked := hs.lock (Invocation.ne_house hauth) hopen.lookup_eq hown
      fun hmem => hfree ⟨_, hweight.lockKey_eq, hmem⟩
    have hvoted := hlocked.setProposal (q := p.withVotes support weight) hopen.lookup_eq
      (withVotes_id p support weight) (withVotes_bondAmount p support weight)
    rw [h]
    exact { hvoted with ready := h ▸ hready }
  | locked voter pid p own hcall hauth hopen hown h =>
    subst h
    refine hs.lock (Invocation.ne_house hauth) hopen.lookup_eq hown fun hmem => hfree ?_
    exact ⟨_, by rw [hcall]; rfl, hmem⟩
  | unlocked voter pid p amount hcall hp hlate hlock h =>
    subst h
    exact hs.unlocked hlock
  | arranged hcall h =>
    rw [h]
    exact { hs with ready := h ▸ hready }
  | queued pid p hcall =>
    rw [hcall] at hcalls
    exact hcalls.elim
  | executed pid p hp hcall =>
    rcases hcall with ⟨hcall, _⟩ | ⟨_, hcall, _⟩ <;> rw [hcall] at hcalls <;> exact hcalls.elim
  | cancelled pid p purpose target hp hstate hcall =>
    rcases hcall with ⟨hcall, _⟩ | ⟨hcall, _⟩ <;> rw [hcall] at hcalls <;> exact hcalls.elim
  | dropped pid p hp hcall =>
    rcases hcall with ⟨hcall, _⟩ | ⟨hcall, _⟩ <;> rw [hcall] at hcalls <;> exact hcalls.elim

theorem Custody.unlock_returns (hs : Custody c dao.house s) {voter : Address} {pid : ℕ} {amount : ℤ}
    {p : Proposal} (hlock : s.lockedTokens.lookup (pid, voter) = some amount)
    (hp : s.proposals.lookup pid = some p) (hcall : i.call = .unlockTokens voter pid)
    (hlate : p.deadline < i.sequence) {ledger : Ledger} (hempty : ledger c.token dao.house = 0)
    (hpays : i.tokens.Pays ledger s.transfers c.token dao.house) :
    exec i s = .ok { s with
      lockedTokens := s.lockedTokens.erase (pid, voter),
      transfers := s.transfers ++ [⟨.unlock pid, c.token, dao.house, voter, amount⟩] } := by
  obtain ⟨hpos, _⟩ := hs.locks pid voter amount hlock
  have hentry : entry s.lockedTokens (pid, voter) = amount := by
    rw [entry, hlock, Option.getD_some]
  have hpart := hs.ready.locks_nonneg.entry_le_total (pid, voter)
  have hbonds : 0 ≤ sumBy (fun _ p => max p.bondAmount 0) s.proposals :=
    sumBy_nonneg fun _ p _ => le_max_right p.bondAmount 0
  have haccepts : i.tokens.accepts s.transfers ⟨.unlock pid, c.token, dao.house, voter, amount⟩ := by
    refine hpays _ rfl rfl (le_of_lt hpos) ?_
    rw [replay_eq_gain, hempty, hs.gain_eq]
    dsimp only
    omega
  unfold exec
  rw [hcall]
  dsimp only
  unfold unlockTokens requireInitialized
  rw [rejectIf_neg (by rw [hs.ready.initialized_eq]; simp), ok_bind]
  simp only [getProposal, hp, okOr, ok_bind, rejectIf_neg (not_le.mpr hlate), hlock, getInstance,
    hs.ready.token_eq, callTransfer, recordTransfer, trapUnless, haccepts, ↓reduceIte]
  rfl

end Invariant

theorem initializeDao_custody {dao : Deployment} {env : Env} {admin token : Address}
    {votingPeriod : ℕ} {quorum proposalBond : ℤ} {minQuorumBps maxQuorumBps quorumBps executionDelay : ℕ}
    {s : State} (h : initializeDao env admin token votingPeriod quorum proposalBond minQuorumBps
      maxQuorumBps quorumBps executionDelay State.empty = .ok s) :
    Custody ⟨admin, token, quorum, proposalBond, quorumBps, executionDelay⟩ dao.house s := by
  obtain ⟨_, hready, hproposals, hlocks, htransfers, _⟩ := initializeDao_ready h
  refine ⟨hready, fun pid voter amount hlock => ?_, fun pid => ?_, ?_, fun pid voter => ?_⟩
  · simp [hlocks] at hlock
  · rw [htransfers]
    rfl
  · rw [htransfers, hlocks, hproposals]
    rfl
  · rw [htransfers, hlocks]
    rfl

/-- In every run of proposals, delegations, votes, locks and unlocks in which no address locks for a
    proposal it has a lock for: the contract holds the locks and the unpaid bonds, what a voter locked
    was unlocked or is in the voter's slot, and from the deadline on the slot can be unlocked. -/
theorem locks_custody (dao : Deployment) (admin token : Address) (votingPeriod : ℕ)
    (quorum proposalBond : ℤ) (minQuorumBps maxQuorumBps quorumBps executionDelay : ℕ)
    (i₀ : Invocation dao) (s : State)
    (hcall : i₀.call = .initializeDao admin token votingPeriod quorum proposalBond minQuorumBps
      maxQuorumBps quorumBps executionDelay)
    (hinit : exec i₀ State.empty = .ok s) (is : List (Invocation dao))
    (hcalls : ∀ i ∈ is, i.call.Locking)
    (hfree : ∀ e ∈ history exec s is, ¬ Relocks e.before e.invocation.call) (ledger : Ledger)
    (hempty : ledger token dao.house = 0) :
    replay ledger (run s is).transfers token dao.house =
        total (run s is).lockedTokens + unpaidBonds (run s is) ∧
      (∀ pid voter, lockedBy pid voter (run s is).transfers =
        unlockedBy pid voter (run s is).transfers + entry (run s is).lockedTokens (pid, voter)) ∧
      ∀ pid voter amount, (run s is).lockedTokens.lookup (pid, voter) = some amount →
        ∃ p, (run s is).proposals.lookup pid = some p ∧ ∀ j : Invocation dao,
          j.call = .unlockTokens voter pid → p.deadline < j.sequence →
          j.tokens.Pays ledger (run s is).transfers token dao.house →
          exec j (run s is) = .ok { run s is with
            lockedTokens := (run s is).lockedTokens.erase (pid, voter),
            transfers := (run s is).transfers ++
              [⟨.unlock pid, token, dao.house, voter, amount⟩] } := by
  have hs : Custody ⟨admin, token, quorum, proposalBond, quorumBps, executionDelay⟩ dao.house s := by
    unfold exec at hinit
    rw [hcall] at hinit
    exact initializeDao_custody hinit
  have halong := (along_of_history (Q := fun s i => ¬ Relocks s i.call) hfree).and_forall hcalls
  have hrun : Custody ⟨admin, token, quorum, proposalBond, quorumBps, executionDelay⟩ dao.house
      (run s is) :=
    run_invariant_along
      (fun s i t hs hi hok => exec_custody hs hi.2 (hi.1 t hok) hok) hs halong
  refine ⟨?_, hrun.each_eq, fun pid voter amount hlock => ?_⟩
  · rw [replay_eq_gain, hempty, hrun.gain_eq, hrun.unpaidBonds_eq, zero_add]
  · obtain ⟨_, _, p, hp⟩ := hrun.locks pid voter amount hlock
    exact ⟨p, hp, fun j hj hlate hpays => hrun.unlock_returns hlock hp hj hlate hempty hpays⟩

/-- Alice locks and Bob votes, beside the bond of Carol. -/
def demoLocks : List (Invocation demoDao) :=
  [demoCreate .standard, demoCall 3 (.lockForVote demoAlice 0), demoCall 4 (.vote demoBob 0 true)]

theorem locks_custody_demo :
    replay demoLedger (run (run State.empty [demoInitialize 30]) demoLocks).transfers demoToken
        demoDao.house = 200 + 30 ∧
      entry (run (run State.empty [demoInitialize 30]) demoLocks).lockedTokens (0, demoAlice) = 100 ∧
      (exec (demoCall 13 (.unlockTokens demoAlice 0))
        (run (run State.empty [demoInitialize 30]) demoLocks)).toOption.isSome := by
  have hcustody := locks_custody demoDao demoAdmin demoToken 10 50 30 0 0 0 5 (demoInitialize 30)
    (run State.empty [demoInitialize 30]) rfl rfl demoLocks
    (by simp [demoLocks, demoCreate, demoCall, Call.Locking]) (by decide +kernel) demoLedger rfl
  have hlock : (run (run State.empty [demoInitialize 30]) demoLocks).lockedTokens.lookup
      (0, demoAlice) = some 100 := by decide +kernel
  have hdeadline : ((run (run State.empty [demoInitialize 30]) demoLocks).proposals.lookup 0).map
      (fun p => p.deadline) = some 12 := by decide +kernel
  obtain ⟨hbalance, _, hunlock⟩ := hcustody
  obtain ⟨p, hp, hreturns⟩ := hunlock 0 demoAlice 100 hlock
  rw [hp, Option.map_some, Option.some.injEq] at hdeadline
  refine ⟨?_, ?_, ?_⟩
  · rw [hbalance]
    decide +kernel
  · rw [entry, hlock, Option.getD_some]
  · rw [hreturns (demoCall 13 (.unlockTokens demoAlice 0)) rfl (by rw [hdeadline]; decide)
      (honestReplies_pays _ _ _ _)]
    rfl

/-- Alice locks 100 tokens, receives another 40 and locks again: the contract holds 140, and only the
    40 can be unlocked. -/
def demoRelock : List (Invocation demoDao) :=
  [demoCreate .standard, demoCall 3 (.lockForVote demoAlice 0),
    { demoCall 4 (.lockForVote demoAlice 0) with
      tokens := { honestReplies (fun _ holder => if holder = demoDao.house then 0 else 140) with
        balance := fun _ _ => 40 } }]

theorem earlier_lock_lost :
    let relocked := run State.empty (demoInitialize 0 :: demoRelock)
    let unlocked := run State.empty (demoInitialize 0 :: demoRelock ++
      [demoCall 13 (.unlockTokens demoAlice 0), demoCall 14 (.unlockTokens demoAlice 0)])
    (replay demoLedger relocked.transfers demoToken demoDao.house = 140 ∧
      total relocked.lockedTokens = 40 ∧ unpaidBonds relocked = 0) ∧
    replay demoLedger unlocked.transfers demoToken demoDao.house = 100 ∧
      total unlocked.lockedTokens = 0 ∧ lockedBy 0 demoAlice unlocked.transfers = 140 ∧
      unlockedBy 0 demoAlice unlocked.transfers = 40 := by
  decide +kernel

end SorobanKit.Dao
