import SorobanKit.CommonMath
import SorobanKit.HostBalances
import SorobanKit.HostInvocation
import SorobanKit.HostRuns
import SorobanKit.HostTransfers
import SorobanKit.MerkleProof

set_option autoImplicit false

/-!
# The Merkle-proof airdrop

Two ways to claim share the contract. In one a tree gives each recipient amounts of any tokens,
paid in part at once and in part by a vesting schedule. In the other each round has a tree of its
own over one token. Events, TTL bumps and queries are left out, and so is the sweep of what was not
claimed.
-/
namespace SorobanKit.Airdrop
open CommonMath HostBalances HostInteger HostInvocation HostTransfers Merkle

inductive AirdropError where
  | alreadyInitialized
  | notInitialized
  | rootNotSet
  | invalidProof
  | alreadyClaimed
  | invalidAmount
  | claimWindowClosed
  | insufficientBalance
  | invalidVestingConfig
  | noVestingSchedule
  | nothingToRelease
  | duplicateEntry
  | arithmeticOverflow
  | emptyBatch
  | roundActive
  | invalidSignature
  deriving DecidableEq, Repr

structure VestingConfig where
  initialUnlockBps : ℕ
  vestingDurationLedgers : ℕ
  deriving DecidableEq, Repr

structure VestingSchedule where
  total : ℤ
  released : ℤ
  startLedger : ℕ
  durationLedgers : ℕ
  deriving DecidableEq, Repr

/-- Why tokens move; a payment of a round comes with its proof. -/
inductive Purpose where
  | funding
  | claim
  | release
  | round (roundId : ℕ) (proof : List Node)
  deriving DecidableEq, Repr

structure State where
  admin : Option Address := none
  token : Option Address := none
  claimDeadline : Option ℕ := none
  vestingConfig : Option VestingConfig := none
  merkleRoot : Option Node := none
  claimed : Finmap (fun _ : Address × Address => Bool) := ∅
  vesting : Finmap (fun _ : Address × Address => VestingSchedule) := ∅
  totalLocked : Balances Address := ∅
  roundRoots : Finmap (fun _ : ℕ => Node) := ∅
  roundClaimed : Finmap (fun _ : ℕ × Address => Bool) := ∅
  transfers : List (Transfer Purpose) := []

def State.empty : State := {}

structure Env extends Context where
  tokens : TokenReplies Purpose

/-- What a recipient signs for a sponsored claim; network and contract are fixed. -/
structure ClaimForPayload where
  roundId : ℕ
  recipient : Address
  amount : ℤ
  deriving DecidableEq, Repr

/-- What the host computes of addresses, hashes and signatures. Nothing is assumed of it.
    `verifyProof` is called by the round claims and defined nowhere. -/
structure Host where
  sha256 : BitVec 512 → Node
  computeLeaf : Address → Address → ℤ → Node
  computeRoundLeaf : Address → ℤ → Node
  verifyProof : Node → List Node → Node → Bool
  accountPublicKey : Address → Option (BitVec 256)
  ed25519Verify : BitVec 256 → ClaimForPayload → BitVec 512 → Bool

section Entrypoints
variable (host : Host) (house : Address) (env : Env)

def callTransfer (x : Transfer Purpose) (s : State) : Result AirdropError State :=
  recordTransfer env.tokens s.transfers x fun log => { s with transfers := log }

def initializeAirdrop (admin : Address) (claimDeadline : ℕ) (vesting : Option VestingConfig)
    (s : State) : Result AirdropError State := do
  rejectIf s.admin.isSome .alreadyInitialized
  requireAuth env.toContext admin
  rejectIf (∃ cfg ∈ vesting, bpsDenominator < cfg.initialUnlockBps ∨
    ((cfg.initialUnlockBps : ℤ) < bpsDenominator ∧ cfg.vestingDurationLedgers = 0))
    .invalidVestingConfig
  return { s with
    vestingConfig := vesting.or s.vestingConfig, admin := some admin,
    claimDeadline := some claimDeadline }

def isClaimed (recipient token : Address) (s : State) : Bool :=
  (s.claimed.lookup (recipient, token)).getD false

def ensureAvailable (token : Address) (amount : ℤ) (s : State) : Result AirdropError Unit := do
  let available ← okOr (checkedSub (env.tokens.balance token house) (entry s.totalLocked token))
    .arithmeticOverflow
  rejectIf (available < amount) .insufficientBalance

def loadClaimContext (s : State) : Result AirdropError Node := do
  rejectIf s.admin.isNone .notInitialized
  let root ← okOr s.merkleRoot .rootNotSet
  let deadline ← okOr s.claimDeadline .notInitialized
  rejectIf (deadline < env.sequence) .claimWindowClosed
  return root

structure ClaimEntry where
  recipient : Address
  token : Address
  amount : ℤ
  deriving DecidableEq, Repr

def ClaimEntry.pair (e : ClaimEntry) : Address × Address := (e.recipient, e.token)

/-- The part of an amount that is paid at once. -/
def liquidPart (amount : ℤ) (s : State) : Result AirdropError ℤ :=
  match s.vestingConfig with
  | some cfg => okOr (applyBpsFee amount cfg.initialUnlockBps) .arithmeticOverflow
  | none => return amount

/-- The rest gets a schedule, when there is a rest and a configuration. -/
def lockRest (e : ClaimEntry) (locked : ℤ) (s : State) : Result AirdropError State :=
  match s.vestingConfig with
  | none => return s
  | some cfg =>
    if 0 < locked then do
      let s := { s with vesting := s.vesting.insert e.pair {
        total := locked, released := 0, startLedger := env.sequence,
        durationLedgers := cfg.vestingDurationLedgers } }
      let newTotal ← okOr (checkedAdd (entry s.totalLocked e.token) locked) .arithmeticOverflow
      return { s with totalLocked := s.totalLocked.insert e.token newTotal }
    else return s

def settleClaim (s : State) (e : ClaimEntry) : Result AirdropError State := do
  let s := { s with claimed := s.claimed.insert e.pair true }
  let liquid ← liquidPart e.amount s
  let locked ← okOr (checkedSub e.amount liquid) .arithmeticOverflow
  let s ← lockRest env e locked s
  if 0 < liquid then callTransfer env ⟨.claim, e.token, house, e.recipient, liquid⟩ s
  else return s

/-- What the validating loop of a batch has gathered. -/
structure Batch where
  seen : List (Address × Address) := []
  totals : Balances Address := ∅
  leaves : List Node := []

def checkEntry (s : State) (b : Batch) (e : ClaimEntry) : Result AirdropError Batch := do
  rejectIf (e.amount ≤ 0) .invalidAmount
  rejectIf (e.pair ∈ b.seen) .duplicateEntry
  rejectIf (isClaimed e.recipient e.token s) .alreadyClaimed
  let total ← okOr (checkedAdd (entry b.totals e.token) e.amount) .arithmeticOverflow
  return { seen := b.seen ++ [e.pair], totals := b.totals.insert e.token total,
           leaves := b.leaves ++ [host.computeLeaf e.recipient e.token e.amount] }

/-- The order of the tokens only decides which error a failing batch returns. -/
def claimBatch (entries : List ClaimEntry) (proof : List Node) (proofFlags : List Bool) (s : State) :
    Result AirdropError State := do
  let root ← loadClaimContext env s
  rejectIf (entries = []) .emptyBatch
  let batch ← entries.foldlM (checkEntry host s) {}
  rejectIf (verifyMerkleMultiProof host.sha256 batch.leaves proof proofFlags root = false)
    .invalidProof
  (entries.map ClaimEntry.token).dedup.forM fun token =>
    ensureAvailable house env token (entry batch.totals token) s
  entries.foldlM (settleClaim house env) s

def vestedAmount (schedule : VestingSchedule) (now : ℕ) : Result AirdropError ℤ :=
  let elapsed := saturatingSubU32 now schedule.startLedger
  if schedule.durationLedgers = 0 ∨ schedule.durationLedgers ≤ elapsed then return schedule.total
  else okOr ((checkedMul schedule.total elapsed).bind fun v =>
    checked (v.tdiv schedule.durationLedgers)) .arithmeticOverflow

def releasableAmount (schedule : VestingSchedule) (now : ℕ) : Result AirdropError ℤ := do
  let vested ← vestedAmount schedule now
  okOr (checkedSub vested schedule.released) .arithmeticOverflow

/-- Also returns the amount. -/
def release (recipient token : Address) (s : State) : Result AirdropError (ℤ × State) := do
  requireAuth env.toContext recipient
  let schedule ← okOr (s.vesting.lookup (recipient, token)) .noVestingSchedule
  let amount ← releasableAmount schedule env.sequence
  rejectIf (amount ≤ 0) .nothingToRelease
  let released ← okOr (checkedAdd schedule.released amount) .arithmeticOverflow
  let s := { s with
    vesting := s.vesting.insert (recipient, token) { schedule with released := released } }
  let remainingLocked ← okOr (checkedSub (entry s.totalLocked token) amount) .arithmeticOverflow
  let s := { s with totalLocked := s.totalLocked.insert token remainingLocked }
  let s ← callTransfer env ⟨.release, token, house, recipient, amount⟩ s
  return (amount, s)

/-- Somebody sends tokens to the contract, which takes no part in it. -/
def fund (source token : Address) (amount : ℤ) (s : State) : Result AirdropError State := do
  requireAuth env.toContext source
  callTransfer env ⟨.funding, token, source, house, amount⟩ s

def setRoot (roundId : ℕ) (root : Node) (s : State) : Result AirdropError State := do
  let admin ← okOr s.admin .notInitialized
  requireAuth env.toContext admin
  if (s.roundRoots.lookup roundId).isSome then do
    let deadline ← okOr s.claimDeadline .notInitialized
    rejectIf (env.sequence ≤ deadline) .roundActive
    return { s with roundRoots := s.roundRoots.insert roundId root }
  else return { s with roundRoots := s.roundRoots.insert roundId root }

/-- `load_claim_context` of the round claims. -/
def loadRoundContext (roundId : ℕ) (s : State) : Result AirdropError (Address × Node) := do
  let token ← okOr s.token .notInitialized
  let root ← okOr (s.roundRoots.lookup roundId) .rootNotSet
  let deadline ← okOr s.claimDeadline .notInitialized
  rejectIf (deadline < env.sequence) .claimWindowClosed
  return (token, root)

/-- Marks the claim before the transfer. -/
def payRound (token : Address) (roundId : ℕ) (recipient : Address) (amount : ℤ) (proof : List Node)
    (s : State) : Result AirdropError State :=
  callTransfer env ⟨.round roundId proof, token, house, recipient, amount⟩
    { s with roundClaimed := s.roundClaimed.insert (roundId, recipient) true }

def executeClaim (roundId : ℕ) (recipient : Address) (amount : ℤ) (proof : List Node) (s : State) :
    Result AirdropError State := do
  rejectIf (amount ≤ 0) .invalidAmount
  let (token, root) ← loadRoundContext env roundId s
  rejectIf ((roundId, recipient) ∈ s.roundClaimed) .alreadyClaimed
  rejectIf (host.verifyProof (host.computeRoundLeaf recipient amount) proof root = false)
    .invalidProof
  payRound house env token roundId recipient amount proof s

def claim (roundId : ℕ) (recipient : Address) (amount : ℤ) (proof : List Node) (s : State) :
    Result AirdropError State := do
  requireAuth env.toContext recipient
  executeClaim host house env roundId recipient amount proof s

def claimFor (roundId : ℕ) (recipient : Address) (amount : ℤ) (proof : List Node)
    (signature : BitVec 512) (s : State) : Result AirdropError State := do
  let publicKey ← okOr (host.accountPublicKey recipient) .invalidSignature
  trapUnless (host.ed25519Verify publicKey ⟨roundId, recipient, amount⟩ signature)
  executeClaim host house env roundId recipient amount proof s

structure RoundClaim where
  recipient : Address
  amount : ℤ
  proof : List Node
  deriving DecidableEq, Repr

/-- One round of the loop of `claim_batch_lenient`. -/
def claimOneLenient (roundId : ℕ) (token : Address) (root : Node) (acc : State × List Address)
    (c : RoundClaim) : Result AirdropError (State × List Address) :=
  let (s, claimed) := acc
  if c.amount ≤ 0 then return acc
  else if (roundId, c.recipient) ∈ s.roundClaimed then return acc
  else if host.verifyProof (host.computeRoundLeaf c.recipient c.amount) c.proof root = false then
    return acc
  else do
    let s ← payRound house env token roundId c.recipient c.amount c.proof s
    return (s, claimed ++ [c.recipient])

/-- Also returns who was paid. -/
def claimBatchLenient (roundId : ℕ) (claims : List RoundClaim) (s : State) :
    Result AirdropError (State × List Address) := do
  let (token, root) ← loadRoundContext env roundId s
  claims.foldlM (claimOneLenient host house env roundId token root) (s, [])

end Entrypoints

inductive VestingCall where
  | initializeAirdrop (admin : Address) (claimDeadline : ℕ) (vesting : Option VestingConfig)
  | fund (source token : Address) (amount : ℤ)
  | claimBatch (entries : List ClaimEntry) (proof : List Node) (proofFlags : List Bool)
  | release (recipient token : Address)

inductive RoundCall where
  | initializeAirdrop (admin : Address) (claimDeadline : ℕ) (vesting : Option VestingConfig)
  | setRoot (roundId : ℕ) (root : Node)
  | claim (roundId : ℕ) (recipient : Address) (amount : ℤ) (proof : List Node)
  | claimFor (roundId : ℕ) (recipient : Address) (amount : ℤ) (proof : List Node)
      (signature : BitVec 512)
  | claimBatchLenient (roundId : ℕ) (claims : List RoundClaim)

/-- A call on the contract at `house`, which signs nothing itself. -/
structure Invocation (house : Address) (κ : Type) extends Env where
  call : κ
  outside : house ∉ auths

variable {house : Address}

def execVesting (host : Host) (i : Invocation house VestingCall) (s : State) :
    Result AirdropError State :=
  let env := i.toEnv
  match i.call with
  | .initializeAirdrop admin claimDeadline vesting =>
    initializeAirdrop env admin claimDeadline vesting s
  | .fund source token amount => fund house env source token amount s
  | .claimBatch entries proof proofFlags => claimBatch host house env entries proof proofFlags s
  | .release recipient token => Prod.snd <$> release house env recipient token s

def runVesting (host : Host) (s : State) (is : List (Invocation house VestingCall)) : State :=
  HostRuns.run (execVesting host) s is

def execRound (host : Host) (i : Invocation house RoundCall) (s : State) :
    Result AirdropError State :=
  let env := i.toEnv
  match i.call with
  | .initializeAirdrop admin claimDeadline vesting =>
    initializeAirdrop env admin claimDeadline vesting s
  | .setRoot roundId root => setRoot env roundId root s
  | .claim roundId recipient amount proof => claim host house env roundId recipient amount proof s
  | .claimFor roundId recipient amount proof signature =>
    claimFor host house env roundId recipient amount proof signature s
  | .claimBatchLenient roundId claims =>
    Prod.fst <$> claimBatchLenient host house env roundId claims s

def runRounds (host : Host) (s : State) (is : List (Invocation house RoundCall)) : State :=
  HostRuns.run (execRound host) s is

end SorobanKit.Airdrop
