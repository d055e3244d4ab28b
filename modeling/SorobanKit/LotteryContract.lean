import Mathlib.Data.Finmap
import SorobanKit.CommonMath
import SorobanKit.HostBytes
import SorobanKit.HostInvocation
import SorobanKit.HostTransfers

set_option autoImplicit false

/-!
# A lottery by commit and reveal

The admin commits to a secret, and what is revealed draws as many different winners as are configured,
who share the prize pool. Buying and refunding tickets, which the merged source keeps in two ways that
do not fit together, events, TTL bumps and queries are left out.
-/
namespace SorobanKit.Lottery
open CommonMath HostBytes HostInteger HostInvocation HostTransfers

inductive LotteryError where
  | alreadyInitialized
  | notInitialized
  | drawAlreadyDone
  | drawNotDone
  | invalidTicketPrice
  | commitAlreadySubmitted
  | revealMismatch
  | noTickets
  | invalidRevealDeadline
  | invalidWinnerConfig
  | insufficientParticipants
  | invalidTicketCap
  | invalidFeeConfig
  | rolloverNotAvailable
  deriving DecidableEq, Repr

abbrev Bytes := List UInt8

/-- `BytesN<32>` -/
abbrev Bytes32 := Vector UInt8 32

inductive LotteryState where
  | opened
  | committed
  | drawn
  deriving DecidableEq, Repr

/-- Why tokens move. -/
inductive Purpose where
  | fee
  | prize
  deriving DecidableEq, Repr

structure State where
  admin : Option Address := none
  token : Option Address := none
  ticketPrice : Option ℤ := none
  totalTickets : Option ℕ := none
  state : Option LotteryState := none
  winnerCount : Option ℕ := none
  prizeSplits : Option (List ℕ) := none
  maxTicketsPerAddress : Option ℕ := none
  minParticipants : Option ℕ := none
  feeBps : Option ℕ := none
  feeRecipient : Option Address := none
  commit : Option Bytes32 := none
  revealDeadline : Option ℕ := none
  participant : Finmap (fun _ : ℕ => Address) := ∅
  winners : Option (List Address) := none
  winner : Option Address := none
  transfers : List (Transfer Purpose) := []

structure Env extends Context where
  tokens : TokenReplies Purpose

section Hashes
variable (sha256 : Bytes → Bytes32)

def commitHash (secret salt : Bytes32) : Bytes32 := sha256 (secret.toList ++ salt.toList)

def entropyHash (secret salt : Bytes32) (extra : Bytes) : Bytes32 :=
  sha256 (secret.toList ++ salt.toList ++ extra)

end Hashes

def fromBeBytes (bytes : Bytes) : ℕ := bytes.foldl (fun n b => 256 * n + b.toNat) 0

/-- The last eight bytes as a number, which a pool without tickets cannot reduce. -/
def entropyIndex (hash : Bytes32) (poolLen : ℕ) : Result LotteryError ℕ := do
  trapUnless (poolLen ≠ 0)
  return fromBeBytes (hash.toList.drop 24) % poolLen

/-- What `initialize` is called with. -/
structure Config where
  admin : Address
  token : Address
  ticketPrice : ℤ
  winnerCount : ℕ
  prizeSplits : List ℕ
  maxTicketsPerAddress : Option ℕ
  feeBps : Option ℕ
  feeRecipient : Option Address
  deriving DecidableEq, Repr

/-- Both are set, or neither is. -/
def checkFee (feeBps : Option ℕ) (feeRecipient : Option Address) : Result LotteryError Unit :=
  match feeBps, feeRecipient with
  | some bps, some _ => rejectIf (bps = 0 ∨ bpsDenominator ≤ bps) .invalidFeeConfig
  | none, none => .ok ()
  | _, _ => .error (.error .invalidFeeConfig)

def addSplit (total split : ℕ) : Result LotteryError ℕ :=
  okOr (checkedAddU32 total split) .invalidWinnerConfig

section Entrypoints
variable (ctx : Context)

def initializeLottery (config : Config) (s : State) : Result LotteryError State := do
  rejectIf s.state.isSome .alreadyInitialized
  rejectIf (config.ticketPrice ≤ 0) .invalidTicketPrice
  rejectIf (config.winnerCount = 0 ∨ config.prizeSplits.length ≠ config.winnerCount)
    .invalidWinnerConfig
  let total ← config.prizeSplits.foldlM addSplit 0
  rejectIf ((total : ℤ) ≠ bpsDenominator) .invalidWinnerConfig
  rejectIf (config.maxTicketsPerAddress = some 0) .invalidTicketCap
  checkFee config.feeBps config.feeRecipient
  requireAuth ctx config.admin
  let s := { s with
    admin := some config.admin, token := some config.token, ticketPrice := some config.ticketPrice
    totalTickets := some 0, state := some .opened, winnerCount := some config.winnerCount
    prizeSplits := some config.prizeSplits }
  let s := { s with
    maxTicketsPerAddress := config.maxTicketsPerAddress.or s.maxTicketsPerAddress }
  return { s with
    feeBps := config.feeBps.or s.feeBps, feeRecipient := config.feeRecipient.or s.feeRecipient }

def commitReveal (hash : Bytes32) (revealDeadline : ℕ) (s : State) : Result LotteryError State := do
  let admin ← okOr s.admin .notInitialized
  requireAuth ctx admin
  let state ← okOr s.state .notInitialized
  rejectIf (state = .committed) .commitAlreadySubmitted
  rejectIf (state = .drawn) .drawAlreadyDone
  let totalTickets ← okOr s.totalTickets .notInitialized
  rejectIf (totalTickets = 0) .noTickets
  rejectIf (revealDeadline ≤ ctx.sequence) .invalidRevealDeadline
  return { s with
    commit := some hash, revealDeadline := some revealDeadline, state := some .committed }

/-- The holders of all tickets, in the order of the tickets. -/
def rebuildPool (totalTickets : ℕ) (s : State) : Result LotteryError (List Address) :=
  (List.range totalTickets).mapM fun idx => unwrap (s.participant.lookup idx)

def see (seen : List Address) (p : Address) : List Address := if p ∈ seen then seen else seen ++ [p]

/-- The loop over the pool that `draw` and `rollover` have in common. -/
def distinct (pool : List Address) : List Address := pool.foldl see []

def requireCommitted (state : LotteryState) : Result LotteryError Unit :=
  match state with
  | .opened => .error (.error .drawNotDone)
  | .drawn => .error (.error .drawAlreadyDone)
  | .committed => .ok ()

/-- Ledger and round, with which the entropy differs from round to round. -/
def roundExtra (round : ℕ) : Bytes := beBytes 4 ctx.sequence ++ beBytes 4 round

variable (sha256 : Bytes → Bytes32)

/-- One round: a winner, whose tickets leave the pool. -/
def selectRound (secret salt : Bytes32) (acc : List Address × List Address) (round : ℕ) :
    Result LotteryError (List Address × List Address) := do
  let (winners, pool) := acc
  let entropy := entropyHash sha256 secret salt (roundExtra ctx round)
  let idx ← entropyIndex entropy pool.length
  let winner ← unwrap pool[idx]?
  return (winners ++ [winner], pool.filter (· ≠ winner))

def selectWinners (secret salt : Bytes32) (winnerCount : ℕ) (pool : List Address) :
    Result LotteryError (List Address) := do
  let (winners, _) ← (List.range winnerCount).foldlM (selectRound ctx sha256 secret salt) ([], pool)
  return winners

end Entrypoints

section Money
variable (house : Address) (env : Env)

def callTransfer (x : Transfer Purpose) (s : State) : Result LotteryError State :=
  recordTransfer env.tokens s.transfers x fun log => { s with transfers := log }

/-- A share in basis points, or nothing if it overflows. -/
def share (amount : ℤ) (bps : ℕ) : ℤ := (applyBpsFee amount bps).getD 0

def sendFee (token recipient : Address) (amount : ℤ) (s : State) : Result LotteryError State :=
  if 0 < amount then callTransfer env ⟨.fee, token, house, recipient, amount⟩ s else return s

/-- What is left of the prize for the winners. -/
def takeFee (token : Address) (totalPrize : ℤ) (s : State) : Result LotteryError (ℤ × State) :=
  match s.feeBps with
  | some feeBps => do
    let feeRecipient ← unwrap s.feeRecipient
    let feeAmount := share totalPrize feeBps
    let s ← sendFee house env token feeRecipient feeAmount s
    let rest ← unwrap (checkedSub totalPrize feeAmount)
    return (rest, s)
  | none => return (totalPrize, s)

def payPrize (token : Address) (distributable : ℤ) (winners : List Address) (prizeSplits : List ℕ)
    (s : State) (i : ℕ) : Result LotteryError State := do
  let winner ← unwrap winners[i]?
  let split ← unwrap prizeSplits[i]?
  callTransfer env ⟨.prize, token, house, winner, share distributable split⟩ s

/-- The draw is over before the first transfer, which may fail and revert it. -/
def distribute (winners : List Address) (winnerCount totalTickets : ℕ) (prizeSplits : List ℕ)
    (s : State) : Result LotteryError State := do
  let firstWinner ← unwrap winners[0]?
  let s := { s with state := some .drawn, winners := some winners, winner := some firstWinner }
  let ticketPrice ← okOr s.ticketPrice .notInitialized
  let totalPrize ← unwrap (checkedMul ticketPrice totalTickets)
  let token ← okOr s.token .notInitialized
  let (distributable, s) ← takeFee house env token totalPrize s
  (List.range winnerCount).foldlM (payPrize house env token distributable winners prizeSplits) s

variable (sha256 : Bytes → Bytes32)

def draw (secret salt : Bytes32) (s : State) : Result LotteryError (List Address × State) := do
  let admin ← okOr s.admin .notInitialized
  requireAuth env.toContext admin
  let state ← okOr s.state .notInitialized
  requireCommitted state
  let storedCommit ← okOr s.commit .notInitialized
  rejectIf (commitHash sha256 secret salt ≠ storedCommit) .revealMismatch
  let totalTickets ← okOr s.totalTickets .notInitialized
  let winnerCount ← okOr s.winnerCount .notInitialized
  let prizeSplits ← okOr s.prizeSplits .notInitialized
  let pool ← rebuildPool totalTickets s
  rejectIf ((distinct pool).length < winnerCount) .insufficientParticipants
  let winners ← selectWinners env.toContext sha256 secret salt winnerCount pool
  let s ← distribute house env winners winnerCount totalTickets prizeSplits s
  return (winners, s)

end Money

/-- Anyone may call it after the deadline. -/
def requireKeeper (ctx : Context) (admin : Address) (revealDeadline : ℕ) : Result LotteryError Unit :=
  if revealDeadline < ctx.sequence then .ok () else requireAuth ctx admin

def rollover (ctx : Context) (s : State) : Result LotteryError State := do
  let state ← okOr s.state .notInitialized
  rejectIf (state ≠ .committed) .rolloverNotAvailable
  let revealDeadline ← okOr s.revealDeadline .notInitialized
  let admin ← okOr s.admin .notInitialized
  requireKeeper ctx admin revealDeadline
  let winnerCount ← okOr s.winnerCount .notInitialized
  let effectiveMin := s.minParticipants.getD winnerCount
  let totalTickets ← okOr s.totalTickets .notInitialized
  let pool ← rebuildPool totalTickets s
  rejectIf (effectiveMin ≤ (distinct pool).length) .rolloverNotAvailable
  return { s with commit := none, revealDeadline := none, state := some .opened }

end SorobanKit.Lottery
