import SorobanKit.TokenStorage

set_option autoImplicit false

/-!
# Allowances and permits

The allowance helpers shared by `approve`, `transfer_from` and `burn_from`, and the
signature-based approvals on top of them.
-/
namespace SorobanKit.Token
open HostBalances HostInteger HostInvocation

def allowanceExpiryGraceLedgers : ℕ := 0
def expiredAllowanceLedger : ℕ := 0

def allowanceIsActive (currentLedger expirationLedger : ℕ) : Bool :=
  currentLedger ≤ saturatingAddU32 expirationLedger allowanceExpiryGraceLedgers

/-- The active allowance with its expiration ledger, or the expired default. -/
def readActiveAllowance (sequence : ℕ) (owner spender : Address) (s : State) : ℤ × ℕ :=
  match s.allowance (owner, spender) with
  | some v =>
    if allowanceIsActive sequence v.expirationLedger then (v.amount, v.expirationLedger)
    else (0, expiredAllowanceLedger)
  | none => (0, expiredAllowanceLedger)

def getAllowance (sequence : ℕ) (owner spender : Address) (s : State) : ℤ :=
  match s.allowance (owner, spender) with
  | some v => if allowanceIsActive sequence v.expirationLedger then v.amount else 0
  | none => 0

theorem readActiveAllowance_fst (sequence : ℕ) (owner spender : Address) (s : State) :
    (readActiveAllowance sequence owner spender s).1 = getAllowance sequence owner spender s := by
  unfold readActiveAllowance getAllowance
  cases s.allowance (owner, spender) with
  | none => rfl
  | some v => by_cases h : allowanceIsActive sequence v.expirationLedger <;> simp [h]

def setAllowance (owner spender : Address) (amount : ℤ) (expirationLedger : ℕ) (s : State) :
    State :=
  { s with
    allowance := Function.update s.allowance (owner, spender) (some ⟨amount, expirationLedger⟩) }

/-- `set_allowance` extends the life of the entry by as many ledgers as the number of the ledger it
    expires at, and the host traps past the longest life. A stored ledger has passed this before. -/
def extendAllowance (d : Deployment) (ctx : Context) (expirationLedger : ℕ) :
    Result TokenError Unit :=
  trapUnless (ctx.sequence < expirationLedger →
    expirationLedger < d.maxEntryTtl ∧ ctx.sequence + expirationLedger ≤ u32Max)

/-- The amount's sign is not looked at here: a negative `amount` passes the comparison
    and the subtraction raises the stored allowance. -/
def validateAndDeductAllowance (ctx : Context) (owner spender : Address) (amount : ℤ)
    (s : State) : Result TokenError State := do
  let (current, expirationLedger) := readActiveAllowance ctx.sequence owner spender s
  rejectIf (current < amount) .insufficientAllowance
  let remaining ← unwrap (checkedSub current amount)
  return setAllowance owner spender remaining expirationLedger s

def increaseAllowance (ctx : Context) (owner spender : Address) (delta : ℤ) (s : State) :
    Result TokenError State := do
  requireAuth ctx owner
  let (current, expirationLedger) := readActiveAllowance ctx.sequence owner spender s
  let newAmount ← okOr (checkedAdd current delta) .overflow
  return setAllowance owner spender newAmount expirationLedger s

def decreaseAllowance (ctx : Context) (owner spender : Address) (delta : ℤ) (s : State) :
    Result TokenError State := do
  requireAuth ctx owner
  let (current, expirationLedger) := readActiveAllowance ctx.sequence owner spender s
  let newAmount ← okOr (checkedSub current delta) .insufficientAllowance
  return setAllowance owner spender newAmount expirationLedger s

def setPermitSigner (ctx : Context) (owner : Address) (publicKey : PublicKey) (s : State) :
    Result TokenError State := do
  requireAuth ctx owner
  return { s with permitSigner := Function.update s.permitSigner owner (some publicKey) }

def permitNonce (owner : Address) (s : State) : ℕ := (s.permitNonce owner).getD 0

def isPermitNonceCancelled (owner : Address) (nonce : ℕ) (s : State) : Bool :=
  (s.cancelledPermitNonce (owner, nonce)).getD false

def cancelPermitNonce (ctx : Context) (owner : Address) (nonce : ℕ) (s : State) :
    Result TokenError State := do
  requireAuth ctx owner
  return { s with
    cancelledPermitNonce := Function.update s.cancelledPermitNonce (owner, nonce) (some true) }

def approveWithSignature (d : Deployment) (ctx : Context) (owner spender : Address) (amount : ℤ)
    (nonce expiryLedger : ℕ) (signature : Signature) (s : State) : Result TokenError State := do
  requireNotPaused d s
  rejectIf (expiryLedger < ctx.sequence) .permitExpired
  rejectIf (nonce ≠ permitNonce owner s) .invalidNonce
  rejectIf (isPermitNonceCancelled owner nonce s) .invalidNonce
  let publicKey ← okOr (s.permitSigner owner) .permitSignerNotSet
  let message : PermitMessage :=
    ⟨d.contractAddress, owner, spender, amount, nonce, expiryLedger⟩
  -- a signature that does not verify is a trap of the host, not an error code
  trapUnless (d.ed25519Verify publicKey message signature)
  let nextNonce ← okOr (checkedAddU32 (permitNonce owner s) 1) .overflow
  let s := { s with permitNonce := Function.update s.permitNonce owner (some nextNonce) }
  extendAllowance d ctx expiryLedger
  return setAllowance owner spender amount expiryLedger s

end SorobanKit.Token
