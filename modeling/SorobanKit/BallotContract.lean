import Mathlib.Data.UInt
import SorobanKit.HostBalances
import SorobanKit.HostInteger
import SorobanKit.HostInvocation
import SorobanKit.HostRuns

set_option autoImplicit false

/-!
# A ballot among several choices

Registered voters vote directly, by commit and reveal, or by a blinded commitment that anyone may
reveal. The source merges several versions; ballots count with the weight of their voter, except for
a blinded reveal, which does not know its voter and counts one. Ranked ballots, the closing of the
vote, events, TTL bumps and queries are left out.
-/
namespace SorobanKit.Ballot
open HostBalances HostInteger HostInvocation

inductive BallotError where
  | alreadyInitialized
  | notInitialized
  | notRegistered
  | alreadyVoted
  | invalidChoice
  | votingClosed
  | votingAlreadyStarted
  | invalidWindow
  | votingNotStarted
  | noChoices
  | votingNotClosed
  | alreadyCertified
  | quorumNotMet
  | resultsNotReady
  | tied
  | invalidTieResolution
  deriving DecidableEq, Repr

abbrev Bytes := List UInt8

/-- What the contract asks of the host: `sha256`, and the string form of an address. -/
structure Host (Hash : Type) where
  sha256 : Bytes → Hash
  addressBytes : Address → Bytes

/-- One call of `record_vote`, whose ballot it was, and the weight of that voter. -/
structure Counted where
  voter : Address
  choice : ℕ
  amount : ℤ
  weight : ℕ
  deriving DecidableEq, Repr

/-- The last two fields are no part of the storage: `blinder` keeps who first made each blinded
    commitment, and `counted` the ballots behind the tallies. -/
structure State (Hash : Type) where
  admin : Option Address := none
  votingActive : Option Bool := none
  votingStart : Option ℕ := none
  votingEnd : Option ℕ := none
  quorum : Option ℕ := none
  choices : Option (List String) := none
  totalVotes : Option ℤ := none
  choiceVotes : Balances ℕ := ∅
  yesVotes : Option ℤ := none
  noVotes : Option ℤ := none
  registeredVoter : Finmap (fun _ : Address => Bool) := ∅
  voterWeight : Finmap (fun _ : Address => ℕ) := ∅
  hasVoted : Finmap (fun _ : Address => Bool) := ∅
  commitPhase : Option Bool := none
  revealPhase : Option Bool := none
  commitment : Finmap (fun _ : Address => Hash) := ∅
  revealed : Finmap (fun _ : Address => Bool) := ∅
  commitCount : Option ℕ := none
  commitmentHash : Finmap (fun _ : Hash => Bool) := ∅
  revealedCommitment : Finmap (fun _ : Hash => Bool) := ∅
  blinder : Finmap (fun _ : Hash => Address) := ∅
  counted : List Counted := []

/-- `MIN_DEADLINE_BUFFER` -/
def minDeadlineBuffer : ℕ := 10

/-- `MIN_VOTING_DURATION` -/
def minVotingDuration : ℕ := 10

def toBeBytes (n : UInt32) : Bytes :=
  [(n >>> 24).toUInt8, (n >>> 16).toUInt8, (n >>> 8).toUInt8, n.toUInt8]

section Entrypoints
variable {Hash : Type} [DecidableEq Hash] (host : Host Hash) (ctx : Context)

def initializeBallot (admin : Address) (votingStart votingEnd : ℕ) (choices : List String)
    (quorum : ℕ) (s : State Hash) : Result BallotError (State Hash) := do
  rejectIf s.admin.isSome .alreadyInitialized
  rejectIf (choices = []) .noChoices
  let earliestStart ← okOr (checkedAddU32 ctx.sequence minDeadlineBuffer) .invalidWindow
  rejectIf (votingStart < earliestStart) .invalidWindow
  let earliestEnd ← okOr (checkedAddU32 votingStart minVotingDuration) .invalidWindow
  rejectIf (votingEnd < earliestEnd ∨ votingEnd ≤ votingStart) .invalidWindow
  requireAuth ctx admin
  return { s with
    admin := some admin, votingActive := some true, votingStart := some votingStart
    votingEnd := some votingEnd, totalVotes := some 0, quorum := some quorum
    commitPhase := some false, revealPhase := some false, choices := some choices
    choiceVotes := (List.range choices.length).foldl (fun votes i => votes.insert i 0) s.choiceVotes
    yesVotes := some 0, noVotes := some 0 }

def requireAdmin (s : State Hash) : Result BallotError Unit := do
  let admin ← okOr s.admin .notInitialized
  requireAuth ctx admin

def registerWithWeight (voter : Address) (weight : ℕ) (s : State Hash) :
    Result BallotError (State Hash) := do
  requireAdmin ctx s
  return { s with
    registeredVoter := s.registeredVoter.insert voter true
    voterWeight := s.voterWeight.insert voter weight }

def registerVoter (voter : Address) (s : State Hash) : Result BallotError (State Hash) :=
  registerWithWeight ctx voter 1 s

def registerVoterWithWeight (voter : Address) (weight : ℕ) (s : State Hash) :
    Result BallotError (State Hash) :=
  registerWithWeight ctx voter weight s

def isRegistered (voter : Address) (s : State Hash) : Bool :=
  (s.registeredVoter.lookup voter).getD false

def voterWeight (voter : Address) (s : State Hash) : ℕ := (s.voterWeight.lookup voter).getD 1

def deregisterVoter (voter : Address) (s : State Hash) : Result BallotError (State Hash) := do
  requireAdmin ctx s
  rejectIf (0 < s.totalVotes.getD 0) .votingAlreadyStarted
  rejectIf (isRegistered voter s = false) .notRegistered
  return { s with registeredVoter := s.registeredVoter.erase voter }

/-- `x + amount` on a stored `i128`, where an overflow traps. -/
def addVotes (x : Option ℤ) (amount : ℤ) : Result BallotError ℤ :=
  unwrap (checkedAdd (x.getD 0) amount)

/-- The counters of ballots with two choices. -/
def recordBinary (choice : ℕ) (amount : ℤ) (s : State Hash) : Result BallotError (State Hash) :=
  if choice = 0 then do
    let noVotes ← addVotes s.noVotes amount
    return { s with noVotes := some noVotes }
  else if choice = 1 then do
    let yesVotes ← addVotes s.yesVotes amount
    return { s with yesVotes := some yesVotes }
  else return s

def recordVote (choice weight : ℕ) (s : State Hash) : Result BallotError (State Hash) := do
  let current ← addVotes (s.choiceVotes.lookup choice) weight
  let s ← recordBinary choice weight { s with choiceVotes := s.choiceVotes.insert choice current }
  let totalVotes ← addVotes s.totalVotes weight
  return { s with totalVotes := some totalVotes }

/-- `record_vote`, noted for the voter. -/
def countVote (voter : Address) (choice amount : ℕ) (s : State Hash) :
    Result BallotError (State Hash) := do
  let t ← recordVote choice amount s
  return { t with counted := s.counted ++ [⟨voter, choice, amount, voterWeight voter s⟩] }

def requireWindow (s : State Hash) : Result BallotError Unit := do
  rejectIf (s.admin = none) .notInitialized
  rejectIf (s.votingActive.getD false = false) .votingClosed
  rejectIf (ctx.sequence < s.votingStart.getD 0) .votingNotStarted
  rejectIf (s.votingEnd.getD 0 < ctx.sequence) .votingClosed

def hasVoted (voter : Address) (s : State Hash) : Bool := (s.hasVoted.lookup voter).getD false

def vote (voter : Address) (choice : UInt32) (s : State Hash) : Result BallotError (State Hash) := do
  requireWindow ctx s
  requireAuth ctx voter
  rejectIf (isRegistered voter s = false) .notRegistered
  rejectIf (hasVoted voter s) .alreadyVoted
  let choices ← okOr s.choices .notInitialized
  rejectIf (choices.length ≤ choice.toNat) .invalidChoice
  let s ← countVote voter choice.toNat (voterWeight voter s) s
  return { s with hasVoted := s.hasVoted.insert voter true }

def startCommitPhase (s : State Hash) : Result BallotError (State Hash) := do
  let admin ← unwrap s.admin
  requireAuth ctx admin
  return { s with commitPhase := some true, revealPhase := some false, votingActive := some true }

def startRevealPhase (s : State Hash) : Result BallotError (State Hash) := do
  let admin ← unwrap s.admin
  requireAuth ctx admin
  return { s with commitPhase := some false, revealPhase := some true }

def requireRegistered (voter : Address) (s : State Hash) : Result BallotError Unit :=
  trapUnless (isRegistered voter s)

def requireCommitPhase (s : State Hash) : Result BallotError Unit :=
  trapUnless (s.commitPhase.getD false)

def requireRevealPhase (s : State Hash) : Result BallotError Unit :=
  trapUnless (s.revealPhase.getD false)

/-- The guards of both ways to commit. -/
def checkCommit (voter : Address) (s : State Hash) : Result BallotError Unit := do
  requireAuth ctx voter
  requireRegistered voter s
  requireCommitPhase s
  trapUnless (voter ∉ s.commitment)

def commitVote (voter : Address) (commitment : Hash) (s : State Hash) :
    Result BallotError (State Hash) := do
  checkCommit ctx voter s
  return { s with commitment := s.commitment.insert voter commitment }

/-- The blinder of a commitment that was made before stays. -/
def noteBlinder (voter : Address) (commitment : Hash) (s : State Hash) :
    Finmap (fun _ : Hash => Address) :=
  if commitment ∈ s.blinder then s.blinder else s.blinder.insert commitment voter

def commitVoteBlinded (voter : Address) (commitment : Hash) (s : State Hash) :
    Result BallotError (State Hash) := do
  checkCommit ctx voter s
  trapUnless (commitment ∉ s.commitmentHash)
  let commitCount ← unwrap (checkedAddU32 (s.commitCount.getD 0) 1)
  return { s with
    commitment := s.commitment.insert voter commitment
    commitmentHash := s.commitmentHash.insert commitment true
    commitCount := some commitCount, blinder := noteBlinder voter commitment s }

/-- The choice is not compared with the number of choices. -/
def revealVote (voter : Address) (choice : UInt32) (salt : Bytes) (s : State Hash) :
    Result BallotError (State Hash) := do
  requireAuth ctx voter
  requireRegistered voter s
  requireRevealPhase s
  let commitment ← unwrap (s.commitment.lookup voter)
  trapUnless (host.sha256 (host.addressBytes voter ++ toBeBytes choice ++ salt) = commitment)
  let s ← countVote voter choice.toNat (voterWeight voter s) s
  return { s with
    commitment := s.commitment.erase voter, revealed := s.revealed.insert voter true }

/-- Counts one, for whoever committed. -/
def countBlinded (commitment : Hash) (choice : ℕ) (s : State Hash) :
    Result BallotError (State Hash) :=
  match s.blinder.lookup commitment with
  | some voter => countVote voter choice 1 s
  | none => recordVote choice 1 s

def revealVoteBlinded (commitment : Hash) (secret : Bytes) (choice : UInt32) (proof : Bytes)
    (s : State Hash) : Result BallotError (State Hash) := do
  requireRevealPhase s
  trapUnless (commitment ∈ s.commitmentHash)
  trapUnless (commitment ∉ s.revealedCommitment)
  let choices ← unwrap s.choices
  trapUnless (choice.toNat < choices.length)
  trapUnless (host.sha256 (secret ++ toBeBytes choice ++ proof) = commitment)
  let s ← countBlinded commitment choice.toNat s
  return { s with
    commitmentHash := s.commitmentHash.erase commitment
    revealedCommitment := s.revealedCommitment.insert commitment true }

end Entrypoints

inductive Call (Hash : Type) where
  | initializeBallot (admin : Address) (votingStart votingEnd : ℕ) (choices : List String)
      (quorum : ℕ)
  | registerVoter (voter : Address)
  | registerVoterWithWeight (voter : Address) (weight : ℕ)
  | deregisterVoter (voter : Address)
  | vote (voter : Address) (choice : UInt32)
  | startCommitPhase
  | startRevealPhase
  | commitVote (voter : Address) (commitment : Hash)
  | commitVoteBlinded (voter : Address) (commitment : Hash)
  | revealVote (voter : Address) (choice : UInt32) (salt : Bytes)
  | revealVoteBlinded (commitment : Hash) (secret : Bytes) (choice : UInt32) (proof : Bytes)

structure Invocation (Hash : Type) extends Context where
  call : Call Hash

variable {Hash : Type} [DecidableEq Hash] (host : Host Hash)

def exec (i : Invocation Hash) (s : State Hash) : Result BallotError (State Hash) :=
  match i.call with
  | .initializeBallot admin votingStart votingEnd choices quorum =>
    initializeBallot i.toContext admin votingStart votingEnd choices quorum s
  | .registerVoter voter => registerVoter i.toContext voter s
  | .registerVoterWithWeight voter weight => registerVoterWithWeight i.toContext voter weight s
  | .deregisterVoter voter => deregisterVoter i.toContext voter s
  | .vote voter choice => vote i.toContext voter choice s
  | .startCommitPhase => startCommitPhase i.toContext s
  | .startRevealPhase => startRevealPhase i.toContext s
  | .commitVote voter commitment => commitVote i.toContext voter commitment s
  | .commitVoteBlinded voter commitment => commitVoteBlinded i.toContext voter commitment s
  | .revealVote voter choice salt => revealVote host i.toContext voter choice salt s
  | .revealVoteBlinded commitment secret choice proof =>
    revealVoteBlinded host commitment secret choice proof s

def run (is : List (Invocation Hash)) : State Hash := HostRuns.run (exec host) {} is

def history (is : List (Invocation Hash)) : List (HostRuns.Entry (State Hash) (Invocation Hash)) :=
  HostRuns.history (exec host) {} is

end SorobanKit.Ballot
