import Mathlib.Data.Finmap
import SorobanKit.CommonMath
import SorobanKit.HostBalances
import SorobanKit.HostInvocation
import SorobanKit.HostRuns
import SorobanKit.HostTransfers

set_option autoImplicit false

/-!
# Linear vesting with revocation

The admin locks tokens under a schedule with a cliff, the beneficiary claims what has vested, and a
revocation takes effect after a delay. The source merges several versions: the head of `claim` and
its payment are lost, and its body stands in `create_tranche_schedule`, which is left out as a call;
so are milestones, the release by the admin, events and TTL bumps.
-/
namespace SorobanKit.Vesting
open CommonMath HostInteger HostInvocation HostTransfers

inductive VestingError where
  | alreadyInitialized
  | notInitialized
  | invalidAmount
  | invalidSchedule
  | nothingToClaim
  | alreadyRevoked
  | scheduleAlreadyExists
  | scheduleNotFound
  | arithmeticError
  | revocationNotDue
  deriving DecidableEq, Repr

structure BeneficiarySchedule where
  amount : ℤ
  cliffLedger : ℕ
  endLedger : ℕ
  claimed : ℤ
  revoked : Bool
  isRevocable : Bool
  revocationPending : Bool
  revocationLedger : ℕ
  deriving DecidableEq, Repr

/-- Why tokens move, and under whose schedule. -/
inductive Purpose where
  | deposit (beneficiary : Address)
  | claim (beneficiary : Address)
  | unvested (beneficiary : Address)
  deriving DecidableEq, Repr

structure State where
  admin : Option Address := none
  token : Option Address := none
  revocationDelay : Option ℕ := none
  schedules : Finmap (fun _ : Address => BeneficiarySchedule) := ∅
  transfers : List (Transfer Purpose) := []

structure Env extends Context where
  tokens : TokenReplies Purpose

def vestedAmount (amount : ℤ) (cliffLedger endLedger ledger : ℕ) : Result VestingError ℤ :=
  if ledger < cliffLedger then return 0
  else if endLedger ≤ ledger then return amount
  else
    let elapsed := ledger - cliffLedger
    let total := endLedger - cliffLedger
    okOr (mulDiv amount elapsed total).toOption .arithmeticError

def validateSchedule (cliffLedger endLedger now : ℕ) : Result VestingError Unit :=
  rejectIf (endLedger ≤ cliffLedger ∨ endLedger ≤ now) .invalidSchedule

def revocationDelay (s : State) : ℕ := s.revocationDelay.getD 0

/-- Where vesting ends, by what is known of a revocation. -/
def effectiveEnd (schedule : BeneficiarySchedule) (delay now : ℕ) : ℕ :=
  if schedule.revoked then schedule.revocationLedger
  else if schedule.revocationPending then
    let finalizeLedger := saturatingAddU32 schedule.revocationLedger delay
    if finalizeLedger ≤ now then finalizeLedger else schedule.endLedger
  else schedule.endLedger

section Entrypoints
variable (house : Address) (env : Env)

def callTransfer (x : Transfer Purpose) (s : State) : Result VestingError State :=
  recordTransfer env.tokens s.transfers x fun log => { s with transfers := log }

def putSchedule (beneficiary : Address) (schedule : BeneficiarySchedule) (s : State) : State :=
  { s with schedules := s.schedules.insert beneficiary schedule }

def initializeVesting (admin token : Address) (s : State) : Result VestingError State := do
  rejectIf s.admin.isSome .alreadyInitialized
  requireAuth env.toContext admin
  return { s with admin := some admin, token := some token, revocationDelay := some 0 }

def setRevocationDelay (delay : ℕ) (s : State) : Result VestingError State := do
  let admin ← okOr s.admin .notInitialized
  requireAuth env.toContext admin
  return { s with revocationDelay := some delay }

def createSchedule (beneficiary : Address) (cliffLedger endLedger : ℕ) (amount : ℤ)
    (isRevocable : Bool) (s : State) : Result VestingError State := do
  let admin ← okOr s.admin .notInitialized
  let token ← okOr s.token .notInitialized
  requireAuth env.toContext admin
  rejectIf (amount ≤ 0) .invalidAmount
  validateSchedule cliffLedger endLedger env.sequence
  rejectIf (beneficiary ∈ s.schedules) .scheduleAlreadyExists
  let schedule : BeneficiarySchedule := {
    amount, cliffLedger, endLedger, claimed := 0, revoked := false, isRevocable
    revocationPending := false, revocationLedger := 0 }
  callTransfer env ⟨.deposit beneficiary, token, admin, house, amount⟩
    (putSchedule beneficiary schedule s)

/-- Returns what is paid. Who may call is lost with the head, so anyone may. -/
def claim (beneficiary : Address) (s : State) : Result VestingError (ℤ × State) := do
  let token ← okOr s.token .notInitialized
  let schedule ← okOr (s.schedules.lookup beneficiary) .scheduleNotFound
  let vested ← vestedAmount schedule.amount schedule.cliffLedger
    (effectiveEnd schedule (revocationDelay s) env.sequence) env.sequence
  let claimable ← unwrap (checkedSub vested schedule.claimed)
  rejectIf (claimable ≤ 0) .nothingToClaim
  let claimed ← unwrap (checkedAdd schedule.claimed claimable)
  let s ← callTransfer env ⟨.claim beneficiary, token, house, beneficiary, claimable⟩
    (putSchedule beneficiary { schedule with claimed := claimed } s)
  return (claimable, s)

/-- Pays nothing, also where it takes effect at once. -/
def revoke (beneficiary : Address) (s : State) : Result VestingError State := do
  let admin ← okOr s.admin .notInitialized
  requireAuth env.toContext admin
  let schedule ← okOr (s.schedules.lookup beneficiary) .scheduleNotFound
  rejectIf (schedule.revoked ∨ schedule.revocationPending) .alreadyRevoked
  if revocationDelay s = 0 then
    return putSchedule beneficiary
      { schedule with revoked := true, revocationLedger := env.sequence } s
  else
    return putSchedule beneficiary
      { schedule with revocationPending := true, revocationLedger := env.sequence } s

def finalizeRevocation (beneficiary : Address) (s : State) : Result VestingError State := do
  let admin ← okOr s.admin .notInitialized
  let token ← okOr s.token .notInitialized
  let schedule ← okOr (s.schedules.lookup beneficiary) .scheduleNotFound
  rejectIf (schedule.revoked ∨ ¬ schedule.revocationPending) .alreadyRevoked
  let finalizeLedger := saturatingAddU32 schedule.revocationLedger (revocationDelay s)
  rejectIf (env.sequence < finalizeLedger) .revocationNotDue
  let vested ← vestedAmount schedule.amount schedule.cliffLedger finalizeLedger env.sequence
  let unvested ← unwrap (checkedSub schedule.amount vested)
  let s := putSchedule beneficiary
    { schedule with
      revoked := true, revocationPending := false, revocationLedger := finalizeLedger } s
  if 0 < unvested then
    callTransfer env ⟨.unvested beneficiary, token, house, admin, unvested⟩ s
  else return s

end Entrypoints

inductive Call where
  | initializeVesting (admin token : Address)
  | setRevocationDelay (delay : ℕ)
  | createSchedule (beneficiary : Address) (cliffLedger endLedger : ℕ) (amount : ℤ)
      (isRevocable : Bool)
  | claim (beneficiary : Address)
  | revoke (beneficiary : Address)
  | finalizeRevocation (beneficiary : Address)
  deriving DecidableEq, Repr

structure Invocation extends Env where
  call : Call

variable (house : Address)

def exec (i : Invocation) (s : State) : Result VestingError State :=
  match i.call with
  | .initializeVesting admin token => initializeVesting i.toEnv admin token s
  | .setRevocationDelay delay => setRevocationDelay i.toEnv delay s
  | .createSchedule beneficiary cliffLedger endLedger amount isRevocable =>
    createSchedule house i.toEnv beneficiary cliffLedger endLedger amount isRevocable s
  | .claim beneficiary => do
    let (_, t) ← claim house i.toEnv beneficiary s
    return t
  | .revoke beneficiary => revoke i.toEnv beneficiary s
  | .finalizeRevocation beneficiary => finalizeRevocation house i.toEnv beneficiary s

def run (is : List Invocation) : State := HostRuns.run (exec house) {} is

def historyFrom (s : State) (is : List Invocation) : List (HostRuns.Entry State Invocation) :=
  HostRuns.history (exec house) s is

end SorobanKit.Vesting
