import SorobanKit.TokenAllowance
import SorobanKit.HostRuns

set_option autoImplicit false

/-!
# Entry points of the token contract

`Call` lists the entry points that write storage and `exec` runs one of them. A failed
call is rolled back by the host, so runs are those of `HostRuns`.
-/
namespace SorobanKit.Token
open HostBalances HostInteger HostInvocation

def updateBalance (account : Address) (delta : ℤ) (s : State) : Result TokenError State := do
  let newBalance ← okOr (checkedAdd (balance s account) delta) .overflow
  rejectIf (newBalance < 0) .insufficientBalance
  return { s with balance := s.balance.insert account newBalance }

/-- The sum of the listed amounts, all of which must be positive. -/
def sumAmounts (entries : List (Address × ℤ)) : Result TokenError ℤ :=
  entries.foldlM (fun totalAmount (_, amount) => do
    rejectIf (amount ≤ 0) .invalidAmount
    okOr (checkedAdd totalAmount amount) .overflow) 0

def creditBalance (recipient : Address) (amount : ℤ) (s : State) : Result TokenError State := do
  let newBalance ← okOr (checkedAdd (balance s recipient) amount) .overflow
  return { s with balance := s.balance.insert recipient newBalance }

/-- The supply cap, compiled in with the `capped-supply` feature. -/
def requireBelowCap (d : Deployment) (amount : ℤ) (s : State) : Result TokenError Unit :=
  match d.features.cappedSupply, s.maxSupply with
  | true, some cap => do
    let newSupply ← okOr (checkedAdd (totalSupply s) amount) .overflow
    rejectIf (cap < newSupply) .invalidAmount
  | _, _ => return ()

def raiseSupply (amount : ℤ) (s : State) : Result TokenError State := do
  let newSupply ← okOr (checkedAdd (totalSupply s) amount) .overflow
  return { s with supply := some newSupply }

/-- The common tail of the three burns: debit the account, then the supply. -/
def removeTokens (account : Address) (amount : ℤ) (s : State) : Result TokenError State := do
  let delta ← unwrap (checkedNeg amount)
  let s ← updateBalance account delta s
  let newSupply ← okOr (checkedSub (totalSupply s) amount) .overflow
  return { s with supply := some newSupply }

def initializeToken (d : Deployment) (ctx : Context) (admin : Address) (name symbol : String)
    (decimals : ℕ) (maxSupply : Option ℤ) (s : State) : Result TokenError State := do
  rejectIf s.admin.isSome .alreadyInitialized
  requireAuth ctx admin
  let s := { s with
    admin := some admin, name := some name, symbol := some symbol,
    decimals := some decimals, supply := some 0, version := some 1 }
  match d.features.cappedSupply, maxSupply with
  | true, some cap => do
    rejectIf (cap ≤ 0) .invalidAmount
    return { s with maxSupply := some cap }
  | _, _ => return s

def mint (d : Deployment) (ctx : Context) (recipient : Address) (amount : ℤ) (s : State) :
    Result TokenError State := do
  requireNotPaused d s
  let admin ← requireAdmin s
  requireAuth ctx admin
  rejectIf (amount ≤ 0) .invalidAmount
  requireBelowCap d amount s
  let s ← updateBalance recipient amount s
  raiseSupply amount s

def batchMint (d : Deployment) (ctx : Context) (recipients : List (Address × ℤ)) (s : State) :
    Result TokenError State := do
  requireNotPaused d s
  let admin ← requireAdmin s
  requireAuth ctx admin
  let totalAmount ← sumAmounts recipients
  requireBelowCap d totalAmount s
  let s ← recipients.foldlM (fun s (recipient, amount) => creditBalance recipient amount s) s
  raiseSupply totalAmount s

def adminBurn (d : Deployment) (ctx : Context) (account : Address) (amount : ℤ) (s : State) :
    Result TokenError State := do
  requireNotPaused d s
  let admin ← requireAdmin s
  requireAuth ctx admin
  rejectIf (amount ≤ 0) .invalidAmount
  removeTokens account amount s

def burn (d : Deployment) (ctx : Context) (account : Address) (amount : ℤ) (s : State) :
    Result TokenError State := do
  requireAuth ctx account
  requireNotPaused d s
  requireNotFrozen d account s
  requireNotBlacklisted d account s
  rejectIf (amount ≤ 0) .invalidAmount
  removeTokens account amount s

/-- Unlike the other two burns this one never tests the sign of `amount`. -/
def burnFrom (d : Deployment) (ctx : Context) (spender account : Address) (amount : ℤ)
    (s : State) : Result TokenError State := do
  requireAuth ctx spender
  requireNotPaused d s
  requireNotFrozen d account s
  requireNotBlacklisted d account s
  let s ← validateAndDeductAllowance ctx account spender amount s
  removeTokens account amount s

def transferImpl (ctx : Context) (source recipient : Address) (amount : ℤ) (s : State) :
    Result TokenError State :=
  -- the self-transfer returns before the amount is validated
  if source = recipient then return s
  else do
    rejectIf (amount ≤ 0) .invalidAmount
    requireNotLocked ctx source s
    let delta ← unwrap (checkedNeg amount)
    let s ← updateBalance source delta s
    updateBalance recipient amount s

/-- The source tests `require_not_locked` as if it were the flag "still locked". -/
def transfer (d : Deployment) (ctx : Context) (source recipient : Address) (amount : ℤ) (s : State) :
    Result TokenError State := do
  requireAuth ctx source
  requireNotPaused d s
  requireNotFrozen d source s
  requireNotBlacklisted d source s
  rejectIf (locked ctx source s) .accountLocked
  transferImpl ctx source recipient amount s

def transferFrom (d : Deployment) (ctx : Context) (spender source recipient : Address) (amount : ℤ)
    (s : State) : Result TokenError State := do
  requireAuth ctx spender
  requireNotPaused d s
  requireNotFrozen d source s
  requireNotBlacklisted d source s
  rejectIf (locked ctx source s) .accountLocked
  let s ← validateAndDeductAllowance ctx source spender amount s
  transferImpl ctx source recipient amount s

/-- One debit of the total, then a credit for every listed recipient but the sender. -/
def debitOnceCreditEach (d : Deployment) (ctx : Context) (source : Address)
    (recipients : List (Address × ℤ)) (s : State) : Result TokenError State := do
  requireAuth ctx source
  requireNotPaused d s
  requireNotFrozen d source s
  requireNotBlacklisted d source s
  requireNotLocked ctx source s
  rejectIf recipients.isEmpty .invalidAmount
  let totalAmount ← sumAmounts recipients
  rejectIf (balance s source < totalAmount) .insufficientBalance
  let newSenderBalance ← okOr (checkedSub (balance s source) totalAmount) .overflow
  let s := { s with balance := s.balance.insert source newSenderBalance }
  recipients.foldlM (fun s (recipient, amount) =>
    if source = recipient then return s else creditBalance recipient amount s) s

def transferToMany (d : Deployment) (ctx : Context) (source : Address)
    (recipients : List (Address × ℤ)) (s : State) : Result TokenError State :=
  debitOnceCreditEach d ctx source recipients s

def transferBatch (d : Deployment) (ctx : Context) (source : Address)
    (transfers : List (Address × ℤ)) (s : State) : Result TokenError State :=
  debitOnceCreditEach d ctx source transfers s

def approve (d : Deployment) (ctx : Context) (owner spender : Address) (amount : ℤ)
    (expirationLedger : ℕ) (s : State) : Result TokenError State := do
  requireAuth ctx owner
  requireNotPaused d s
  extendAllowance d ctx expirationLedger
  return setAllowance owner spender amount expirationLedger s

/-- Calls that only the stored admin may make. -/
def asAdmin (ctx : Context) (s : State) (update : State → State) : Result TokenError State := do
  let admin ← requireAdmin s
  requireAuth ctx admin
  return update s

def proposeAdmin (ctx : Context) (newAdmin : Address) (s : State) : Result TokenError State :=
  asAdmin ctx s fun s => { s with pendingAdmin := some newAdmin }

def acceptAdmin (ctx : Context) (s : State) : Result TokenError State := do
  let pending ← okOr s.pendingAdmin .unauthorized
  requireAuth ctx pending
  return { s with admin := some pending, pendingAdmin := none }

def cancelAdminProposal (ctx : Context) (s : State) : Result TokenError State :=
  asAdmin ctx s fun s => { s with pendingAdmin := none }

/-- The pending proposal is left in place. -/
def setAdmin (ctx : Context) (newAdmin : Address) (s : State) : Result TokenError State :=
  asAdmin ctx s fun s => { s with admin := some newAdmin }

def setTransferLock (ctx : Context) (account : Address) (lockLedger : ℕ) (s : State) :
    Result TokenError State :=
  asAdmin ctx s fun s =>
    { s with transferLock := Function.update s.transferLock account (some lockLedger) }

def snapshot (ctx : Context) (caller : Address) (ledger : ℕ) (s : State) :
    Result TokenError State := do
  requireAuth ctx caller
  let recorded := balance s caller
  let history := (s.snapshotHistory caller).getD []
  return { s with
    snapshot := Function.update s.snapshot (caller, ledger) (some recorded),
    snapshotHistory :=
      Function.update s.snapshotHistory caller (some (history ++ [⟨ledger, recorded⟩])) }

/-- An entry point compiled in with a cargo feature; without it there is nothing to call. -/
def gated (feature : Bool) (body : Result TokenError State) : Result TokenError State := do
  trapUnless feature
  body

def pause (d : Deployment) (ctx : Context) (s : State) : Result TokenError State :=
  gated d.features.pausable <| asAdmin ctx s fun s => { s with paused := some true }

def unpause (d : Deployment) (ctx : Context) (s : State) : Result TokenError State :=
  gated d.features.pausable <| asAdmin ctx s fun s => { s with paused := some false }

def freezeAccount (d : Deployment) (ctx : Context) (account : Address) (s : State) :
    Result TokenError State :=
  gated d.features.freeze <| asAdmin ctx s fun s =>
    { s with frozen := Function.update s.frozen account (some true) }

def unfreezeAccount (d : Deployment) (ctx : Context) (account : Address) (s : State) :
    Result TokenError State :=
  gated d.features.freeze <| asAdmin ctx s fun s =>
    { s with frozen := Function.update s.frozen account none }

def blacklist (d : Deployment) (ctx : Context) (account : Address) (s : State) :
    Result TokenError State :=
  gated d.features.freeze <| asAdmin ctx s fun s =>
    { s with blacklisted := Function.update s.blacklisted account (some true) }

def unblacklist (d : Deployment) (ctx : Context) (account : Address) (s : State) :
    Result TokenError State :=
  gated d.features.freeze <| asAdmin ctx s fun s =>
    { s with blacklisted := Function.update s.blacklisted account none }

def setComplianceTreasury (d : Deployment) (ctx : Context) (treasury : Address) (s : State) :
    Result TokenError State :=
  gated d.features.freeze <| asAdmin ctx s fun s => { s with complianceTreasury := some treasury }

def confiscateBlacklisted (d : Deployment) (ctx : Context) (account : Address) (amount : ℤ)
    (s : State) : Result TokenError State :=
  gated d.features.freeze do
    let admin ← requireAdmin s
    requireAuth ctx admin
    rejectIf (amount ≤ 0) .invalidAmount
    rejectIf (¬ isBlacklisted account s) .unauthorized
    let treasury ← okOr s.complianceTreasury .notInitialized
    let delta ← unwrap (checkedNeg amount)
    let s ← updateBalance account delta s
    updateBalance treasury amount s

def setTransferHook (d : Deployment) (ctx : Context) (hook : Option Address) (s : State) :
    Result TokenError State :=
  gated d.features.transferHook <| asAdmin ctx s fun s => { s with transferHook := hook }

inductive Call where
  | initializeToken (admin : Address) (name symbol : String) (decimals : ℕ) (maxSupply : Option ℤ)
  | mint (recipient : Address) (amount : ℤ)
  | batchMint (recipients : List (Address × ℤ))
  | adminBurn (account : Address) (amount : ℤ)
  | burn (account : Address) (amount : ℤ)
  | burnFrom (spender account : Address) (amount : ℤ)
  | transfer (source recipient : Address) (amount : ℤ)
  | transferFrom (spender source recipient : Address) (amount : ℤ)
  | transferToMany (source : Address) (recipients : List (Address × ℤ))
  | transferBatch (source : Address) (transfers : List (Address × ℤ))
  | confiscateBlacklisted (account : Address) (amount : ℤ)
  | approve (owner spender : Address) (amount : ℤ) (expirationLedger : ℕ)
  | increaseAllowance (owner spender : Address) (delta : ℤ)
  | decreaseAllowance (owner spender : Address) (delta : ℤ)
  | approveWithSignature (owner spender : Address) (amount : ℤ) (nonce expiryLedger : ℕ)
      (signature : Signature)
  | setPermitSigner (owner : Address) (publicKey : PublicKey)
  | cancelPermitNonce (owner : Address) (nonce : ℕ)
  | proposeAdmin (newAdmin : Address)
  | acceptAdmin
  | cancelAdminProposal
  | setAdmin (newAdmin : Address)
  | setTransferLock (account : Address) (lockLedger : ℕ)
  | snapshot (caller : Address) (ledger : ℕ)
  | pause
  | unpause
  | freezeAccount (account : Address)
  | unfreezeAccount (account : Address)
  | blacklist (account : Address)
  | unblacklist (account : Address)
  | setComplianceTreasury (treasury : Address)
  | setTransferHook (hook : Option Address)
  /-- Not an entry point: the host drops a temporary allowance entry whose TTL ran out. -/
  | evictAllowance (owner spender : Address)

structure Invocation extends Context where
  call : Call

def exec (d : Deployment) (i : Invocation) (s : State) : Result TokenError State :=
  let ctx := i.toContext
  match i.call with
  | .initializeToken admin name symbol decimals maxSupply =>
    initializeToken d ctx admin name symbol decimals maxSupply s
  | .mint recipient amount => mint d ctx recipient amount s
  | .batchMint recipients => batchMint d ctx recipients s
  | .adminBurn account amount => adminBurn d ctx account amount s
  | .burn account amount => burn d ctx account amount s
  | .burnFrom spender account amount => burnFrom d ctx spender account amount s
  | .transfer source recipient amount => transfer d ctx source recipient amount s
  | .transferFrom spender source recipient amount => transferFrom d ctx spender source recipient amount s
  | .transferToMany source recipients => transferToMany d ctx source recipients s
  | .transferBatch source transfers => transferBatch d ctx source transfers s
  | .confiscateBlacklisted account amount => confiscateBlacklisted d ctx account amount s
  | .approve owner spender amount expirationLedger =>
    approve d ctx owner spender amount expirationLedger s
  | .increaseAllowance owner spender delta => increaseAllowance ctx owner spender delta s
  | .decreaseAllowance owner spender delta => decreaseAllowance ctx owner spender delta s
  | .approveWithSignature owner spender amount nonce expiryLedger signature =>
    approveWithSignature d ctx owner spender amount nonce expiryLedger signature s
  | .setPermitSigner owner publicKey => setPermitSigner ctx owner publicKey s
  | .cancelPermitNonce owner nonce => cancelPermitNonce ctx owner nonce s
  | .proposeAdmin newAdmin => proposeAdmin ctx newAdmin s
  | .acceptAdmin => acceptAdmin ctx s
  | .cancelAdminProposal => cancelAdminProposal ctx s
  | .setAdmin newAdmin => setAdmin ctx newAdmin s
  | .setTransferLock account lockLedger => setTransferLock ctx account lockLedger s
  | .snapshot caller ledger => snapshot ctx caller ledger s
  | .pause => pause d ctx s
  | .unpause => unpause d ctx s
  | .freezeAccount account => freezeAccount d ctx account s
  | .unfreezeAccount account => unfreezeAccount d ctx account s
  | .blacklist account => blacklist d ctx account s
  | .unblacklist account => unblacklist d ctx account s
  | .setComplianceTreasury treasury => setComplianceTreasury d ctx treasury s
  | .setTransferHook hook => setTransferHook d ctx hook s
  | .evictAllowance owner spender =>
    return { s with allowance := Function.update s.allowance (owner, spender) none }

/-- The storage after a run of invocations, failed ones rolled back. -/
def run (d : Deployment) (s : State) (is : List Invocation) : State := HostRuns.run (exec d) s is

end SorobanKit.Token
