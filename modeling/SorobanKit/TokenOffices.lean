import SorobanKit.TokenMoney

set_option autoImplicit false

/-!
# What a call does to the admin and the permits

Two hand-over protocols write the admin keys and three entry points write the keys of the
signed permits; every other call leaves both alone. `OfficeMove` says once what a returning
call can do to them.
-/
namespace SorobanKit.Token
open HostBalances HostInteger HostInvocation

/-- The keys that decide who may act for the contract and for an owner. -/
structure Offices where
  admin : Option Address
  pendingAdmin : Option Address
  permitSigner : Address → Option PublicKey
  permitNonce : Address → Option ℕ
  cancelledPermitNonce : Address × ℕ → Option Bool

def State.offices (s : State) : Offices where
  admin := s.admin
  pendingAdmin := s.pendingAdmin
  permitSigner := s.permitSigner
  permitNonce := s.permitNonce
  cancelledPermitNonce := s.cancelledPermitNonce

def Call.isOffice : Call → Bool
  | .initializeToken .. | .proposeAdmin _ | .acceptAdmin | .cancelAdminProposal | .setAdmin _
  | .setPermitSigner .. | .cancelPermitNonce .. | .approveWithSignature .. => true
  | _ => false

inductive OfficeMove (d : Deployment) (i : Invocation) (s t : State) : Prop where
  | idle (hcall : i.call.isOffice = false) (h : t.offices = s.offices)
  | opened (admin : Address) (name symbol : String) (decimals : ℕ) (maxSupply : Option ℤ)
      (hcall : i.call = .initializeToken admin name symbol decimals maxSupply)
      (hnone : s.admin = none) (h : t.offices = { s.offices with admin := some admin })
  | proposed (newAdmin admin : Address) (hcall : i.call = .proposeAdmin newAdmin)
      (hadmin : s.admin = some admin) (hauth : admin ∈ i.auths)
      (h : t.offices = { s.offices with pendingAdmin := some newAdmin })
  | accepted (pending : Address) (hcall : i.call = .acceptAdmin)
      (hpending : s.pendingAdmin = some pending) (hauth : pending ∈ i.auths)
      (h : t.offices = { s.offices with admin := some pending, pendingAdmin := none })
  | withdrawn (admin : Address) (hcall : i.call = .cancelAdminProposal)
      (hadmin : s.admin = some admin) (hauth : admin ∈ i.auths)
      (h : t.offices = { s.offices with pendingAdmin := none })
  | assigned (newAdmin admin : Address) (hcall : i.call = .setAdmin newAdmin)
      (hadmin : s.admin = some admin) (hauth : admin ∈ i.auths)
      (h : t.offices = { s.offices with admin := some newAdmin })
  | registered (owner : Address) (publicKey : PublicKey)
      (hcall : i.call = .setPermitSigner owner publicKey) (hauth : owner ∈ i.auths)
      (h : t.offices = { s.offices with
        permitSigner := Function.update s.permitSigner owner (some publicKey) })
  | revoked (owner : Address) (nonce : ℕ) (hcall : i.call = .cancelPermitNonce owner nonce)
      (hauth : owner ∈ i.auths)
      (h : t.offices = { s.offices with
        cancelledPermitNonce :=
          Function.update s.cancelledPermitNonce (owner, nonce) (some true) })
  | permitted (owner spender : Address) (amount : ℤ) (nonce expiryLedger : ℕ)
      (signature : Signature) (publicKey : PublicKey)
      (hcall : i.call = .approveWithSignature owner spender amount nonce expiryLedger signature)
      (hledger : i.sequence ≤ expiryLedger) (hnonce : nonce = permitNonce owner s)
      (hlive : isPermitNonceCancelled owner nonce s = false)
      (hkey : s.permitSigner owner = some publicKey)
      (hverify : d.ed25519Verify publicKey
        ⟨d.contractAddress, owner, spender, amount, nonce, expiryLedger⟩ signature)
      (hallowance : t.allowance =
        Function.update s.allowance (owner, spender) (some ⟨amount, expiryLedger⟩))
      (h : t.offices = { s.offices with
        permitNonce := Function.update s.permitNonce owner (some (nonce + 1)) })

theorem initializeToken_offices {d : Deployment} {ctx : Context} {admin : Address}
    {name symbol : String} {decimals : ℕ} {maxSupply : Option ℤ} {s t : State}
    (h : initializeToken d ctx admin name symbol decimals maxSupply s = .ok t) :
    t.offices = { s.offices with admin := some admin } := by
  simp only [initializeToken, bind_eq_ok] at h
  obtain ⟨_, _, _, _, h⟩ := h
  split at h
  · simp only [bind_eq_ok, pure_eq_ok] at h
    obtain ⟨_, _, rfl⟩ := h
    rfl
  · simp only [pure_eq_ok] at h
    subst h
    rfl

theorem money_offices {d : Deployment} {i : Invocation} {s t : State} (h : exec d i s = .ok t)
    (hcall : i.call.isMoney) : t.offices = s.offices := by
  obtain ⟨b, n, a, rfl⟩ := (exec_moneyMove h hcall).only
  rfl

theorem approveWithSignature_permitted {d : Deployment} {i : Invocation}
    {owner spender : Address} {amount : ℤ} {nonce expiryLedger : ℕ} {signature : Signature}
    {s t : State}
    (hcall : i.call = .approveWithSignature owner spender amount nonce expiryLedger signature)
    (h : approveWithSignature d i.toContext owner spender amount nonce expiryLedger signature s =
      .ok t) : OfficeMove d i s t := by
  simp only [approveWithSignature, bind_eq_ok, rejectIf_eq_ok, okOr_eq_ok, trapUnless_eq_ok,
    checkedAddU32, pure_eq_ok] at h
  obtain ⟨_, _, _, hledger, _, hnonce, _, hlive, publicKey, hkey, _, hverify, next, hnext, _, _,
    rfl⟩ := h
  have heq : nonce = permitNonce owner s := by simpa using hnonce
  have hsucc : next = nonce + 1 := by
    split at hnext
    · cases hnext
      rw [heq]
    · cases hnext
  subst hsucc
  exact .permitted owner spender amount nonce expiryLedger signature publicKey hcall (by omega) heq
    (by simpa using hlive) hkey hverify rfl rfl

/-- Every returning call is one of the nine moves. -/
theorem exec_officeMove {d : Deployment} {i : Invocation} {s t : State} (h : exec d i s = .ok t) :
    OfficeMove d i s t := by
  have hexec := h
  unfold exec at h
  cases hc : i.call <;> simp only [hc] at h
  case initializeToken admin name symbol decimals maxSupply =>
    exact .opened admin name symbol decimals maxSupply hc (initializeToken_ok h).1
      (initializeToken_offices h)
  case proposeAdmin newAdmin =>
    obtain ⟨⟨admin, hauth, hadmin⟩, rfl⟩ := asAdmin_ok h
    exact .proposed newAdmin admin hc hadmin hauth rfl
  case acceptAdmin =>
    simp only [acceptAdmin, bind_eq_ok, okOr_eq_ok, requireAuth_eq_ok, pure_eq_ok] at h
    obtain ⟨pending, hpending, _, hauth, rfl⟩ := h
    exact .accepted pending hc hpending hauth rfl
  case cancelAdminProposal =>
    obtain ⟨⟨admin, hauth, hadmin⟩, rfl⟩ := asAdmin_ok h
    exact .withdrawn admin hc hadmin hauth rfl
  case setAdmin newAdmin =>
    obtain ⟨⟨admin, hauth, hadmin⟩, rfl⟩ := asAdmin_ok h
    exact .assigned newAdmin admin hc hadmin hauth rfl
  case setPermitSigner owner publicKey =>
    simp only [setPermitSigner, bind_eq_ok, requireAuth_eq_ok, pure_eq_ok] at h
    obtain ⟨_, hauth, rfl⟩ := h
    exact .registered owner publicKey hc hauth rfl
  case cancelPermitNonce owner nonce =>
    simp only [cancelPermitNonce, bind_eq_ok, requireAuth_eq_ok, pure_eq_ok] at h
    obtain ⟨_, hauth, rfl⟩ := h
    exact .revoked owner nonce hc hauth rfl
  case approveWithSignature => exact approveWithSignature_permitted hc h
  -- the rest leaves the offices alone
  all_goals refine .idle (by rw [hc]; rfl) ?_
  case mint | batchMint | adminBurn | burn | burnFrom | transfer | transferFrom | transferToMany
      | transferBatch | confiscateBlacklisted | approve | increaseAllowance | decreaseAllowance =>
    exact money_offices hexec (by rw [hc]; rfl)
  case snapshot =>
    simp only [snapshot, bind_eq_ok, pure_eq_ok] at h
    obtain ⟨_, _, rfl⟩ := h
    rfl
  case evictAllowance =>
    simp only [pure_eq_ok] at h
    subst h
    rfl
  case setTransferLock =>
    obtain ⟨_, rfl⟩ := asAdmin_ok h
    rfl
  all_goals
    simp only [pause, unpause, freezeAccount, unfreezeAccount, blacklist, unblacklist,
      setComplianceTreasury, setTransferHook, gated, bind_eq_ok] at h
    obtain ⟨_, _, h⟩ := h
    obtain ⟨_, rfl⟩ := asAdmin_ok h
    rfl

end SorobanKit.Token
