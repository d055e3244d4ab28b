import SorobanKit.BallotTallies

set_option autoImplicit false

/-!
# Closing and certifying a ballot

Tally and certification are guarded by the end of the window, ranked ballots by `VotingActive` and
reveals by `RevealPhase`. Ranked ballots weigh what their voter weighs, and only the total counts
them. Queries write nothing and are left out.
-/
namespace SorobanKit.Ballot
open HostBalances HostInteger HostInvocation

inductive TieBreaker where
  | runoffRequired
  | adminDecidingVote
  deriving DecidableEq, Repr

inductive BallotResult where
  | quorumNotMet
  | certified (results : List ℤ)
  deriving DecidableEq, Repr

/-- All of the storage. -/
structure FullState (Hash : Type) extends State Hash where
  rankedVote : Finmap (fun _ : Address => List UInt32) := ∅
  rankedVoteCount : Option ℕ := none
  tieBreaker : Option TieBreaker := none
  tieResolution : Option ℕ := none
  certifiedHash : Option Hash := none
  certifiedWinner : Option ℕ := none
  certifiedAt : Option ℕ := none

section Entrypoints
variable {Hash : Type} [DecidableEq Hash] (commitHash : Bytes → Hash) (ctx : Context)

/-- The merged body registers the voter again, with the default weight. -/
def unregisterVoter (voter : Address) (s : FullState Hash) :
    Result BallotError (FullState Hash) := do
  requireAdmin ctx s.toState
  return { s with
    voterWeight := s.voterWeight.erase voter
    registeredVoter := s.registeredVoter.insert voter true }

def requireVotingActive (s : State Hash) : Result BallotError Unit :=
  trapUnless (s.votingActive.getD false)

def voteRanked (voter : Address) (preferences : List UInt32) (s : FullState Hash) :
    Result BallotError (FullState Hash) := do
  requireAuth ctx voter
  requireRegistered voter s.toState
  requireVotingActive s.toState
  trapUnless (preferences ≠ [])
  trapUnless (preferences.all fun pref => pref.toNat < choiceCount s.toState)
  trapUnless preferences.Nodup
  trapUnless (voter ∉ s.rankedVote)
  let count ← unwrap (checkedAddU32 (s.rankedVoteCount.getD 0) 1)
  let totalVotes ← addVotes s.totalVotes (voterWeight voter s.toState)
  return { s with
    rankedVote := s.rankedVote.insert voter preferences, rankedVoteCount := some count
    totalVotes := some totalVotes }

def requireClosingAuth (s : State Hash) : Result BallotError Unit := do
  let admin ← okOr s.admin .notInitialized
  if ctx.sequence ≤ s.votingEnd.getD 0 then requireAuth ctx admin else .ok ()

def tallyAll (s : FullState Hash) : Result BallotError (BallotResult × FullState Hash) := do
  requireClosingAuth ctx s.toState
  let results ← readCounts s.toState
  let closed := { s with votingActive := some false }
  if s.totalVotes.getD 0 < (s.quorum.getD 0 : ℤ) then return (.quorumNotMet, closed)
  else return (.certified results, closed)

/-- Yes and no. -/
def tally (s : FullState Hash) : Result BallotError ((ℤ × ℤ) × FullState Hash) := do
  requireClosingAuth ctx s.toState
  return ((s.yesVotes.getD 0, s.noVotes.getD 0), { s with votingActive := some false })

def ballotRequireClosed (s : State Hash) : Result BallotError Unit := do
  rejectIf (s.admin = none) .notInitialized
  rejectIf (ctx.sequence ≤ s.votingEnd.getD 0) .votingNotClosed

def ballotTallyCounts (s : State Hash) : Result BallotError (List ℤ) := do
  let choices ← okOr s.choices .notInitialized
  return (List.range choices.length).map (entry s.choiceVotes)

/-- The highest tally, and zero if there is none. -/
def highest (counts : List ℤ) : ℤ :=
  counts.foldl (fun max count => if max < count then count else max) 0

def tiedAmong (counts : List ℤ) : List ℕ :=
  if 0 < highest counts then
    (List.range counts.length).filter fun i => counts[i]?.getD 0 = highest counts
  else []

def ballotTiedChoices (s : State Hash) : Result BallotError (List ℕ) := do
  let counts ← ballotTallyCounts s
  return tiedAmong counts

def setTieBreaker (tieBreaker : TieBreaker) (s : FullState Hash) :
    Result BallotError (FullState Hash) := do
  requireAdmin ctx s.toState
  return { s with tieBreaker := some tieBreaker }

def resolveTie (choice : UInt32) (s : FullState Hash) : Result BallotError (FullState Hash) := do
  requireAdmin ctx s.toState
  ballotRequireClosed ctx s.toState
  let tied ← ballotTiedChoices s.toState
  rejectIf (choice.toNat ∉ tied) .invalidTieResolution
  return { s with tieResolution := some choice.toNat }

def i128ToBeBytes (value : ℤ) : Bytes :=
  (List.range 16).map fun i => UInt8.ofNat ((value % 2 ^ 128).toNat >>> (8 * (15 - i)))

def ballotResultHash (winner : ℕ) (counts : List ℤ) : Hash :=
  commitHash (toBeBytes (UInt32.ofNat winner) ++ counts.flatMap i128ToBeBytes)

/-- Who wins among the tied, if anyone. -/
def decideWinner (tied : List ℕ) (s : FullState Hash) : Result BallotError ℕ :=
  match tied with
  | [] => .error (.error .resultsNotReady)
  | [winner] => .ok winner
  | tied =>
    match s.tieBreaker.getD .runoffRequired, s.tieResolution with
    | .adminDecidingVote, some choice =>
      if choice ∈ tied then .ok choice else .error (.error .tied)
    | _, _ => .error (.error .tied)

def certifyResults (s : FullState Hash) : Result BallotError (Hash × FullState Hash) := do
  rejectIf s.certifiedHash.isSome .alreadyCertified
  ballotRequireClosed ctx s.toState
  let counts ← ballotTallyCounts s.toState
  rejectIf (s.totalVotes.getD 0 < (s.quorum.getD 0 : ℤ)) .quorumNotMet
  let tied ← ballotTiedChoices s.toState
  let winner ← decideWinner tied s
  let hash := ballotResultHash commitHash winner counts
  return (hash, { s with
    certifiedHash := some hash, certifiedWinner := some winner, certifiedAt := some ctx.sequence })

end Entrypoints

inductive FullCall (Hash : Type) where
  | ballot (call : Call Hash)
  | unregisterVoter (voter : Address)
  | voteRanked (voter : Address) (preferences : List UInt32)
  | tallyAll
  | tally
  | setTieBreaker (tieBreaker : TieBreaker)
  | resolveTie (choice : UInt32)
  | certifyResults

structure FullInvocation (Hash : Type) extends Context where
  call : FullCall Hash

variable {Hash : Type} [DecidableEq Hash] (host : Host Hash) (commitHash : Bytes → Hash)

def execFull (i : FullInvocation Hash) (s : FullState Hash) :
    Result BallotError (FullState Hash) :=
  match i.call with
  | .ballot call => do
    let t ← exec host ⟨i.toContext, call⟩ s.toState
    return { s with toState := t }
  | .unregisterVoter voter => unregisterVoter i.toContext voter s
  | .voteRanked voter preferences => voteRanked i.toContext voter preferences s
  | .tallyAll => do
    let (_, t) ← tallyAll i.toContext s
    return t
  | .tally => do
    let (_, t) ← tally i.toContext s
    return t
  | .setTieBreaker tieBreaker => setTieBreaker i.toContext tieBreaker s
  | .resolveTie choice => resolveTie i.toContext choice s
  | .certifyResults => do
    let (_, t) ← certifyResults commitHash i.toContext s
    return t

def historyFull (is : List (FullInvocation Hash)) :
    List (HostRuns.Entry (FullState Hash) (FullInvocation Hash)) :=
  HostRuns.history (execFull host commitHash) {} is

end SorobanKit.Ballot
