import Mathlib.Data.BitVec
import Mathlib.Logic.Function.Basic
import SorobanKit.HostBalances
import SorobanKit.HostInteger
import SorobanKit.HostInvocation

set_option autoImplicit false

/-!
# Storage of the fungible token

The storage keys of the token contract, one field a key. An absent entry is `none`;
`unwrap_or` defaults are applied where the contract reads. Events, TTL bumps, the WASM
upgrade path and the call into the transfer hook are left out: the hook's result is
discarded and the host refuses to re-enter the token, so none of them can reach the
storage below. The bump of an allowance is kept as far as it can trap.
-/
namespace SorobanKit.Token
open HostBalances HostInteger HostInvocation

inductive TokenError where
  | insufficientBalance
  | insufficientAllowance
  | unauthorized
  | alreadyInitialized
  | notInitialized
  | invalidAmount
  | overflow
  | invalidNonce
  | permitExpired
  | permitSignerNotSet
  | accountLocked
  deriving DecidableEq, Repr

/-- The cargo features that gate contract code. -/
structure Features where
  pausable : Bool
  freeze : Bool
  cappedSupply : Bool
  transferHook : Bool

abbrev PublicKey := BitVec 256
abbrev Signature := BitVec 512

/-- The signed payload of a permit; its XDR encoding is injective. -/
structure PermitMessage where
  contract : Address
  owner : Address
  spender : Address
  amount : ℤ
  nonce : ℕ
  expiryLedger : ℕ

/-- `maxEntryTtl` is a setting of the network: the ledgers that a temporary entry may live. -/
structure Deployment where
  features : Features
  contractAddress : Address
  maxEntryTtl : ℕ
  ed25519Verify : PublicKey → PermitMessage → Signature → Bool

structure AllowanceValue where
  amount : ℤ
  expirationLedger : ℕ
  deriving DecidableEq, Repr

structure SnapshotEntry where
  ledger : ℕ
  balance : ℤ
  deriving DecidableEq, Repr

structure State where
  admin : Option Address := none
  pendingAdmin : Option Address := none
  balance : Balances Address := ∅
  allowance : Address × Address → Option AllowanceValue := fun _ => none
  name : Option String := none
  symbol : Option String := none
  decimals : Option ℕ := none
  supply : Option ℤ := none
  paused : Option Bool := none
  maxSupply : Option ℤ := none
  version : Option ℕ := none
  frozen : Address → Option Bool := fun _ => none
  transferHook : Option Address := none
  snapshot : Address × ℕ → Option ℤ := fun _ => none
  permitSigner : Address → Option PublicKey := fun _ => none
  permitNonce : Address → Option ℕ := fun _ => none
  cancelledPermitNonce : Address × ℕ → Option Bool := fun _ => none
  blacklisted : Address → Option Bool := fun _ => none
  complianceTreasury : Option Address := none
  snapshotHistory : Address → Option (List SnapshotEntry) := fun _ => none
  transferLock : Address → Option ℕ := fun _ => none

/-- Storage of a freshly deployed contract. -/
def State.empty : State := {}

def totalSupply (s : State) : ℤ := s.supply.getD 0

def balance (s : State) (id : Address) : ℤ := entry s.balance id

def requireAdmin (s : State) : Result TokenError Address := okOr s.admin .notInitialized

def requireNotPaused (d : Deployment) (s : State) : Result TokenError Unit :=
  rejectIf (d.features.pausable ∧ s.paused.getD false) .unauthorized

def requireNotFrozen (d : Deployment) (account : Address) (s : State) : Result TokenError Unit :=
  rejectIf (d.features.freeze ∧ (s.frozen account).getD false) .unauthorized

def isBlacklisted (account : Address) (s : State) : Bool := (s.blacklisted account).getD false

def requireNotBlacklisted (d : Deployment) (account : Address) (s : State) :
    Result TokenError Unit :=
  rejectIf (d.features.freeze ∧ isBlacklisted account s) .unauthorized

/-- The lockup of `account` has not passed yet. -/
def locked (ctx : Context) (account : Address) (s : State) : Bool :=
  match s.transferLock account with
  | some lockLedger => ctx.sequence ≤ lockLedger
  | none => false

def requireNotLocked (ctx : Context) (account : Address) (s : State) : Result TokenError Unit :=
  rejectIf (locked ctx account s) .unauthorized

end SorobanKit.Token
