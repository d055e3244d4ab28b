import SorobanKit.TokenOffices

set_option autoImplicit false

/-!
# What the admin decides

Some entry points ask for the admin in office, and what they write nothing else writes. So a call
that changes it, or creates tokens, is one of them and signed by the admin; but an offered office is
accepted by who it was offered to, and `burn_from` with a negative amount creates tokens without
asking the admin.
-/
namespace SorobanKit.Token
open HostBalances HostInteger HostInvocation

/-- The entry points that ask for the admin in office. -/
def Call.isAdmin : Call → Bool
  | .mint .. | .batchMint _ | .adminBurn .. | .confiscateBlacklisted .. | .proposeAdmin _
  | .cancelAdminProposal | .setAdmin _ | .setTransferLock .. | .pause | .unpause | .freezeAccount _
  | .unfreezeAccount _ | .blacklist _ | .unblacklist _ | .setComplianceTreasury _
  | .setTransferHook _ => true
  | _ => false

/-- The admin in office signed an entry point that asks for that. -/
def Administers (s : State) (i : Invocation) : Prop :=
  i.call.isAdmin ∧ ∃ admin, s.admin = some admin ∧ admin ∈ i.auths

/-- What stands between holders and their tokens. -/
structure Powers where
  paused : Option Bool
  frozen : Address → Option Bool
  blacklisted : Address → Option Bool
  complianceTreasury : Option Address
  transferHook : Option Address
  transferLock : Address → Option ℕ

def State.powers (s : State) : Powers where
  paused := s.paused
  frozen := s.frozen
  blacklisted := s.blacklisted
  complianceTreasury := s.complianceTreasury
  transferHook := s.transferHook
  transferLock := s.transferLock

/-- Tokens are created by an amount below zero. -/
def Call.BurnsNegative (call : Call) : Prop :=
  ∃ spender account amount, call = .burnFrom spender account amount ∧ amount < 0

section Steps
variable {d : Deployment} {i : Invocation} {s t : State}

theorem administers_of_asAdmin (hcall : i.call.isAdmin) {update : State → State}
    (h : asAdmin i.toContext s update = .ok t) : Administers s i := by
  obtain ⟨⟨admin, hauth, hadmin⟩, _⟩ := asAdmin_ok h
  exact ⟨hcall, admin, hadmin, hauth⟩

theorem initializeToken_powers {ctx : Context} {admin : Address} {name symbol : String}
    {decimals : ℕ} {maxSupply : Option ℤ}
    (h : initializeToken d ctx admin name symbol decimals maxSupply s = .ok t) :
    t.powers = s.powers := by
  simp only [initializeToken, bind_eq_ok] at h
  obtain ⟨_, _, _, _, h⟩ := h
  split at h
  · simp only [bind_eq_ok, pure_eq_ok] at h
    obtain ⟨_, _, rfl⟩ := h
    rfl
  · rw [pure_eq_ok] at h
    subst h
    rfl

/-- Without the admin the powers stay as they are. -/
theorem exec_powers (h : exec d i s = .ok t) : t.powers = s.powers ∨ Administers s i := by
  cases hmoney : i.call.isMoney with
  | true =>
    obtain ⟨b, n, a, rfl⟩ := (exec_moneyMove h hmoney).only
    exact .inl rfl
  | false =>
    unfold exec at h
    cases hc : i.call <;> simp only [hc, Call.isMoney, Bool.true_eq_false] at h hmoney
    case initializeToken => exact .inl (initializeToken_powers h)
    case approveWithSignature =>
      simp only [approveWithSignature, bind_eq_ok, pure_eq_ok] at h
      obtain ⟨_, _, _, _, _, _, _, _, _, _, _, _, _, _, _, _, rfl⟩ := h
      exact .inl rfl
    case setPermitSigner | cancelPermitNonce | snapshot =>
      simp only [setPermitSigner, cancelPermitNonce, snapshot, bind_eq_ok, pure_eq_ok] at h
      obtain ⟨_, _, rfl⟩ := h
      exact .inl rfl
    case acceptAdmin =>
      simp only [acceptAdmin, bind_eq_ok, pure_eq_ok] at h
      obtain ⟨_, _, _, _, rfl⟩ := h
      exact .inl rfl
    case evictAllowance =>
      rw [pure_eq_ok] at h
      subst h
      exact .inl rfl
    case proposeAdmin | cancelAdminProposal | setAdmin | setTransferLock =>
      exact .inr (administers_of_asAdmin (by rw [hc]; rfl) h)
    all_goals
      simp only [pause, unpause, freezeAccount, unfreezeAccount, blacklist, unblacklist,
        setComplianceTreasury, setTransferHook, gated, bind_eq_ok] at h
      obtain ⟨_, _, h⟩ := h
      exact .inr (administers_of_asAdmin (by rw [hc]; rfl) h)

/-- What the admin in office, and nobody else, decides about the token. -/
structure Authority where
  admin : Option Address
  pendingAdmin : Option Address
  powers : Powers
  maxSupply : Option ℤ

def State.authority (s : State) : Authority where
  admin := s.admin
  pendingAdmin := s.pendingAdmin
  powers := s.powers
  maxSupply := s.maxSupply

/-- Where no office is offered, a call is the admin's or changes nothing of this. -/
theorem exec_authority (h : exec d i s = .ok t) (hadmin : s.admin.isSome)
    (hpending : s.pendingAdmin = none) :
    Administers s i ∨ t.authority = s.authority ∧
      (totalSupply s < totalSupply t → i.call.BurnsNegative) := by
  have hoffices : Administers s i ∨ t.admin = s.admin ∧ t.pendingAdmin = s.pendingAdmin := by
    cases exec_officeMove h with
    | idle hcall h =>
      exact .inr ⟨congrArg Offices.admin h, congrArg Offices.pendingAdmin h⟩
    | opened admin name symbol decimals maxSupply hcall hnone =>
      rw [hnone] at hadmin
      cases hadmin
    | proposed newAdmin admin hcall hadmin hauth =>
      exact .inl ⟨by rw [hcall]; rfl, admin, hadmin, hauth⟩
    | accepted pending hcall hoffered =>
      rw [hpending] at hoffered
      cases hoffered
    | withdrawn admin hcall hadmin hauth => exact .inl ⟨by rw [hcall]; rfl, admin, hadmin, hauth⟩
    | assigned newAdmin admin hcall hadmin hauth =>
      exact .inl ⟨by rw [hcall]; rfl, admin, hadmin, hauth⟩
    | registered owner publicKey hcall hauth h | revoked owner nonce hcall hauth h
      | permitted owner spender amount nonce expiryLedger signature publicKey hcall hledger hnonce hlive
        hkey hverify hallowance h =>
      exact .inr ⟨congrArg Offices.admin h, congrArg Offices.pendingAdmin h⟩
  have hsupply : Administers s i ∨ t.maxSupply = s.maxSupply ∧
      (totalSupply s < totalSupply t → i.call.BurnsNegative) := by
    cases exec_move h with
    | idle hb hs hm ha =>
      refine .inr ⟨hm, fun hless => ?_⟩
      unfold totalSupply at hless
      rw [hs] at hless
      exact absurd hless (lt_irrefl _)
    | created ha =>
      rw [ha] at hadmin
      cases hadmin
    | minted amount hmint hpos ha =>
      obtain ⟨admin, hauth, hadmin⟩ := ha
      have hcall : i.call.isAdmin := by
        cases hc : i.call <;> rw [hc] at hmint <;> first | rfl | cases hmint
      exact .inl ⟨hcall, admin, hadmin, hauth⟩
    | burned amount hneg hb hs hm =>
      refine .inr ⟨hm, fun hless => ?_⟩
      have hbelow : amount < 0 := by omega
      obtain ⟨spender, account, hcall⟩ := hneg (le_of_lt hbelow)
      exact ⟨spender, account, amount, hcall, hbelow⟩
    | moved hb hlost hs hm =>
      refine .inr ⟨hm, fun hless => ?_⟩
      unfold totalSupply at hless
      rw [hs] at hless
      exact absurd hless (lt_irrefl _)
  rcases hoffices with hadministers | ⟨hsame, hoffered⟩
  · exact .inl hadministers
  · rcases hsupply with hadministers | ⟨hmax, hburn⟩
    · exact .inl hadministers
    · rcases exec_powers h with hpowers | hadministers
      · refine .inr ⟨?_, hburn⟩
        unfold State.authority
        rw [hsame, hoffered, hmax, hpowers]
      · exact .inl hadministers

end Steps

end SorobanKit.Token
