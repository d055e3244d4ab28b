import SorobanKit.TokenAllowanceBound
import SorobanKit.TokenAuthority

set_option autoImplicit false

/-!
# Who can take tokens out of an account

`Debit` says of every returning call what it did to one balance: it kept it, or the owner,
a spender with an active allowance or the admin in office took from it. A deduction that
found no allowance writes one that expired at ledger 0, so from ledger 1 on a spender needs
an approval, and the owner has to authorize that or register a permit signer.
-/
namespace SorobanKit.Token
open HostBalances HostInteger HostInvocation HostRuns

/-- The owner's own ways to spend. -/
def Call.spendsOwn (account : Address) : Call → Bool
  | .transfer source _ _ => source = account
  | .transferToMany source _ => source = account
  | .transferBatch source _ => source = account
  | .burn owner _ => owner = account
  | _ => false

/-- Neither the token is paused nor the account frozen or blacklisted. -/
def Spendable (d : Deployment) (account : Address) (s : State) : Prop :=
  ¬ (d.features.pausable ∧ s.paused.getD false) ∧
    ¬ (d.features.freeze ∧ (s.frozen account).getD false) ∧
    ¬ (d.features.freeze ∧ isBlacklisted account s)

inductive Debit (d : Deployment) (account : Address) (i : Invocation) (s t : State) : Prop where
  | kept (h : balance s account ≤ balance t account)
  | byOwner (hcall : i.call.spendsOwn account) (hauth : account ∈ i.auths)
      (hopen : Spendable d account s)
      (hsent : ∀ target amount, i.call = .transfer account target amount →
        target ≠ account ∧ 0 < amount ∧ balance t account = balance s account - amount)
  | bySpender (spender : Address) (amount : ℤ)
      (hcall : (∃ recipient, i.call = .transferFrom spender account recipient amount) ∨
        i.call = .burnFrom spender account amount)
      (hauth : spender ∈ i.auths) (hopen : Spendable d account s) (hpos : 0 < amount)
      (hallowed : amount ≤ getAllowance i.sequence account spender s)
      (h : balance t account = balance s account - amount)
  | byAdmin (admin : Address) (amount : ℤ)
      (hcall : i.call = .adminBurn account amount ∨ i.call = .confiscateBlacklisted account amount)
      (hadmin : s.admin = some admin) (hauth : admin ∈ i.auths) (hpos : 0 < amount)
      (h : balance t account = balance s account - amount)

section Helpers
variable {d : Deployment} {ctx : Context} {source recipient account spender : Address} {amount : ℤ}
  {s t : State}

theorem updateBalance_balance {delta : ℤ} (h : updateBalance recipient delta s = .ok t)
    (account : Address) :
    balance t account = balance s account + if account = recipient then delta else 0 := by
  obtain ⟨_, rfl⟩ := updateBalance_ok h
  by_cases haccount : account = recipient
  · rw [if_pos haccount, haccount]
    exact entry_insert_self _ _ _
  · rw [if_neg haccount, Int.add_zero]
    exact entry_insert_of_ne _ _ haccount

theorem raiseSupply_balance (h : raiseSupply amount s = .ok t) (account : Address) :
    balance t account = balance s account := by
  obtain rfl := raiseSupply_ok h
  rfl

theorem removeTokens_balance (h : removeTokens recipient amount s = .ok t) (account : Address) :
    balance t account = balance s account - if account = recipient then amount else 0 := by
  simp only [removeTokens, bind_eq_ok, unwrap_eq_ok, checkedNeg_eq_some, okOr_eq_ok,
    pure_eq_ok] at h
  obtain ⟨_, ⟨_, rfl⟩, u, hu, _, _, rfl⟩ := h
  have hbalance : balance u account = _ := updateBalance_balance hu account
  change balance u account = _
  rw [hbalance]
  split <;> omega

theorem creditBalance_balance (h : creditBalance recipient amount s = .ok t) (account : Address) :
    balance t account = balance s account + if account = recipient then amount else 0 := by
  simp only [creditBalance, bind_eq_ok, okOr_eq_ok, checkedAdd_eq_some, pure_eq_ok] at h
  obtain ⟨_, ⟨_, rfl⟩, rfl⟩ := h
  by_cases haccount : account = recipient
  · rw [if_pos haccount, haccount]
    exact entry_insert_self _ _ _
  · rw [if_neg haccount, Int.add_zero]
    exact entry_insert_of_ne _ _ haccount

theorem creditLoop_grows {entries : List (Address × ℤ)} (hpos : ∀ x ∈ entries, 0 < x.2)
    (h : entries.foldlM (fun s (x : Address × ℤ) => creditBalance x.1 x.2 s) s = .ok t)
    (account : Address) : balance s account ≤ balance t account := by
  induction entries generalizing s with
  | nil =>
    rw [List.foldlM_nil, pure_eq_ok] at h
    rw [h]
  | cons x entries ih =>
    rw [List.foldlM_cons, bind_eq_ok] at h
    obtain ⟨u, hu, h⟩ := h
    obtain ⟨hx, hentries⟩ := List.forall_mem_cons.mp hpos
    have hfirst := creditBalance_balance hu account
    have hrest := ih hentries h
    split at hfirst <;> omega

theorem transferImpl_balance (h : transferImpl ctx source recipient amount s = .ok t) :
    t = s ∧ source = recipient ∨ source ≠ recipient ∧ 0 < amount ∧
      balance t source = balance s source - amount ∧
      balance t recipient = balance s recipient + amount ∧
      ∀ account, account ≠ source → account ≠ recipient → balance t account = balance s account := by
  unfold transferImpl at h
  split at h
  · next hself =>
    rw [pure_eq_ok] at h
    exact .inl ⟨h.symm, hself⟩
  · next hne =>
    simp only [bind_eq_ok, rejectIf_eq_ok, unwrap_eq_ok, checkedNeg_eq_some] at h
    obtain ⟨_, hpos, _, _, _, ⟨_, rfl⟩, u, hu, h⟩ := h
    have hdebit := updateBalance_balance hu
    have hcredit := updateBalance_balance h
    refine .inr ⟨hne, by omega, ?_, ?_, fun account hs hr => ?_⟩
    · rw [hcredit, hdebit, if_neg hne, if_pos rfl]
      omega
    · rw [hcredit, hdebit, if_neg (Ne.symm hne), if_pos rfl]
      omega
    · rw [hcredit, hdebit, if_neg hs, if_neg hr]
      omega

theorem debitOnceCreditEach_grows {recipients : List (Address × ℤ)}
    (h : debitOnceCreditEach d ctx source recipients s = .ok t) (hne : account ≠ source) :
    balance s account ≤ balance t account := by
  simp only [debitOnceCreditEach, bind_eq_ok, rejectIf_eq_ok, okOr_eq_ok, checkedSub_eq_some] at h
  obtain ⟨_, _, _, _, _, _, _, _, _, _, _, _, n, hsum, _, _, _, ⟨_, rfl⟩, h⟩ := h
  obtain ⟨hpos, rfl⟩ := sumAmounts_ok hsum
  rw [foldlM_skip (fun x : Address × ℤ => source = x.1)] at h
  have hgrows := creditLoop_grows (fun x hx => hpos x (List.mem_filter.mp hx).1) h account
  have hbefore : balance { s with
      balance := s.balance.insert source (balance s source - (recipients.map Prod.snd).sum) } account =
        balance s account := entry_insert_of_ne _ _ hne
  omega

theorem debitOnceCreditEach_open {recipients : List (Address × ℤ)}
    (h : debitOnceCreditEach d ctx source recipients s = .ok t) :
    source ∈ ctx.auths ∧ Spendable d source s := by
  simp only [debitOnceCreditEach, bind_eq_ok, requireAuth_eq_ok, requireNotPaused,
    requireNotFrozen, requireNotBlacklisted, rejectIf_eq_ok] at h
  obtain ⟨_, hauth, _, hpaused, _, hfrozen, _, hblack, _⟩ := h
  exact ⟨hauth, hpaused, hfrozen, hblack⟩

theorem validateAndDeductAllowance_covers {ctx : Context} {owner : Address}
    (h : validateAndDeductAllowance ctx owner spender amount s = .ok t) :
    amount ≤ getAllowance ctx.sequence owner spender s ∧ ∀ account, balance t account = balance s account := by
  simp only [validateAndDeductAllowance, bind_eq_ok, rejectIf_eq_ok, pure_eq_ok] at h
  obtain ⟨_, hle, _, _, rfl⟩ := h
  rw [readActiveAllowance_fst] at hle
  exact ⟨by omega, fun _ => rfl⟩

end Helpers

section Calls
variable {d : Deployment} {account : Address} {i : Invocation} {s t : State}

theorem transfer_debit {source recipient : Address} {amount : ℤ}
    (hcall : i.call = .transfer source recipient amount)
    (h : transfer d i.toContext source recipient amount s = .ok t) : Debit d account i s t := by
  have hmoved := transferImpl_balance (transfer_ok h)
  simp only [transfer, bind_eq_ok, requireAuth_eq_ok, requireNotPaused, requireNotFrozen,
    requireNotBlacklisted, rejectIf_eq_ok] at h
  obtain ⟨_, hauth, _, hpaused, _, hfrozen, _, hblack, _⟩ := h
  rcases hmoved with ⟨rfl, _⟩ | ⟨hne, hpos, hdebit, hcredit, hother⟩
  · exact .kept le_rfl
  · by_cases hsource : account = source
    · subst hsource
      refine .byOwner (by simp [hcall, Call.spendsOwn]) hauth ⟨hpaused, hfrozen, hblack⟩ ?_
      intro target amount' hsame
      rw [hcall] at hsame
      cases hsame
      exact ⟨Ne.symm hne, hpos, hdebit⟩
    · refine .kept ?_
      by_cases hrecipient : account = recipient
      · subst hrecipient
        omega
      · exact (hother account hsource hrecipient).ge

theorem transferFrom_debit {spender source recipient : Address} {amount : ℤ}
    (hcall : i.call = .transferFrom spender source recipient amount)
    (h : transferFrom d i.toContext spender source recipient amount s = .ok t) :
    Debit d account i s t := by
  obtain ⟨u, hu, hpaid⟩ := transferFrom_ok h
  simp only [transferFrom, bind_eq_ok, requireAuth_eq_ok, requireNotPaused, requireNotFrozen,
    requireNotBlacklisted, rejectIf_eq_ok] at h
  obtain ⟨_, hauth, _, hpaused, _, hfrozen, _, hblack, _⟩ := h
  obtain ⟨hallowed, hsame⟩ := validateAndDeductAllowance_covers hu
  rcases transferImpl_balance hpaid with ⟨rfl, _⟩ | ⟨_, hpos, hdebit, hcredit, hother⟩
  · exact .kept (hsame account).ge
  · by_cases hsource : account = source
    · subst hsource
      exact .bySpender spender amount (.inl ⟨recipient, hcall⟩) hauth ⟨hpaused, hfrozen, hblack⟩ hpos
        hallowed (by rw [hdebit, hsame])
    · refine .kept ?_
      by_cases hrecipient : account = recipient
      · subst hrecipient
        rw [hcredit, hsame]
        omega
      · rw [hother account hsource hrecipient, hsame]

theorem burnFrom_debit {spender owner : Address} {amount : ℤ}
    (hcall : i.call = .burnFrom spender owner amount)
    (h : burnFrom d i.toContext spender owner amount s = .ok t) : Debit d account i s t := by
  obtain ⟨u, hu, hburned⟩ := burnFrom_ok h
  simp only [burnFrom, bind_eq_ok, requireAuth_eq_ok, requireNotPaused, requireNotFrozen,
    requireNotBlacklisted, rejectIf_eq_ok] at h
  obtain ⟨_, hauth, _, hpaused, _, hfrozen, _, hblack, _⟩ := h
  obtain ⟨hallowed, hsame⟩ := validateAndDeductAllowance_covers hu
  have hbalance := removeTokens_balance hburned account
  rw [hsame] at hbalance
  by_cases howner : account = owner
  · subst howner
    rw [if_pos rfl] at hbalance
    by_cases hpos : 0 < amount
    · exact .bySpender spender amount (.inr hcall) hauth ⟨hpaused, hfrozen, hblack⟩ hpos hallowed
        hbalance
    · -- a negative amount adds to the balance
      exact .kept (by omega)
  · rw [if_neg howner] at hbalance
    exact .kept (by omega)

theorem adminBurn_debit {burned : Address} {amount : ℤ} (hcall : i.call = .adminBurn burned amount)
    (h : adminBurn d i.toContext burned amount s = .ok t) : Debit d account i s t := by
  obtain ⟨hpos, hburned⟩ := adminBurn_ok h
  simp only [adminBurn, requireAdmin, bind_eq_ok, okOr_eq_ok, requireAuth_eq_ok] at h
  obtain ⟨_, _, admin, hadmin, _, hauth, _⟩ := h
  have hbalance := removeTokens_balance hburned account
  by_cases haccount : account = burned
  · subst haccount
    rw [if_pos rfl] at hbalance
    exact .byAdmin admin amount (.inl hcall) hadmin hauth hpos hbalance
  · rw [if_neg haccount] at hbalance
    exact .kept (by omega)

theorem burn_debit {owner : Address} {amount : ℤ} (hcall : i.call = .burn owner amount)
    (h : burn d i.toContext owner amount s = .ok t) : Debit d account i s t := by
  obtain ⟨_, hburned⟩ := burn_ok h
  simp only [burn, bind_eq_ok, requireAuth_eq_ok, requireNotPaused, requireNotFrozen,
    requireNotBlacklisted, rejectIf_eq_ok] at h
  obtain ⟨_, hauth, _, hpaused, _, hfrozen, _, hblack, _⟩ := h
  have hbalance := removeTokens_balance hburned account
  by_cases haccount : account = owner
  · subst haccount
    refine .byOwner (by simp [hcall, Call.spendsOwn]) hauth ⟨hpaused, hfrozen, hblack⟩ ?_
    intro target amount' hsame
    rw [hcall] at hsame
    cases hsame
  · rw [if_neg haccount] at hbalance
    exact .kept (by omega)

theorem confiscateBlacklisted_debit {seized : Address} {amount : ℤ}
    (hcall : i.call = .confiscateBlacklisted seized amount)
    (h : confiscateBlacklisted d i.toContext seized amount s = .ok t) : Debit d account i s t := by
  obtain ⟨treasury, u, hu, hpaid⟩ := confiscateBlacklisted_ok h
  simp only [confiscateBlacklisted, gated, requireAdmin, bind_eq_ok, okOr_eq_ok, requireAuth_eq_ok,
    rejectIf_eq_ok] at h
  obtain ⟨_, _, admin, hadmin, _, hauth, _, hpos, _⟩ := h
  have hdebit := updateBalance_balance hu account
  have hcredit := updateBalance_balance hpaid account
  by_cases haccount : account = seized
  · subst haccount
    rw [if_pos rfl] at hdebit
    by_cases htreasury : account = treasury
    · rw [if_pos htreasury] at hcredit
      exact .kept (by omega)
    · rw [if_neg htreasury] at hcredit
      exact .byAdmin admin amount (.inr hcall) hadmin hauth (by omega) (by omega)
  · rw [if_neg haccount] at hdebit
    refine .kept ?_
    split at hcredit <;> omega

theorem exec_debit (h : exec d i s = .ok t) (account : Address) : Debit d account i s t := by
  cases hmoney : i.call.isMoney with
  | false =>
    refine .kept (le_of_eq ?_)
    unfold balance
    rw [(exec_quiet h hmoney).balance]
  | true =>
    unfold exec at h
    cases hc : i.call <;> simp only [hc, Call.isMoney, Bool.false_eq_true] at h hmoney
    case mint recipient amount =>
      obtain ⟨hpos, _, _, u, hu, h⟩ := mint_ok h
      have hbalance := updateBalance_balance hu account
      rw [← raiseSupply_balance h account] at hbalance
      refine .kept ?_
      split at hbalance <;> omega
    case batchMint recipients =>
      obtain ⟨_, _, u, hsum, _, hu, h⟩ := batchMint_ok h
      refine .kept ?_
      rw [raiseSupply_balance h account]
      exact creditLoop_grows (sumAmounts_ok hsum).1 hu account
    case adminBurn => exact adminBurn_debit hc h
    case burn => exact burn_debit hc h
    case burnFrom => exact burnFrom_debit hc h
    case transfer => exact transfer_debit hc h
    case transferFrom => exact transferFrom_debit hc h
    case transferToMany source recipients | transferBatch source recipients =>
      by_cases hsource : account = source
      · subst hsource
        obtain ⟨hauth, hopen⟩ := debitOnceCreditEach_open h
        refine .byOwner (by simp [hc, Call.spendsOwn]) hauth hopen ?_
        intro target amount' hsame
        rw [hc] at hsame
        cases hsame
      · exact .kept (debitOnceCreditEach_grows h hsource)
    case confiscateBlacklisted => exact confiscateBlacklisted_debit hc h
    case approve =>
      simp only [approve, bind_eq_ok, pure_eq_ok] at h
      obtain ⟨_, _, _, _, _, _, rfl⟩ := h
      exact .kept le_rfl
    case increaseAllowance | decreaseAllowance =>
      simp only [increaseAllowance, decreaseAllowance, bind_eq_ok, pure_eq_ok] at h
      obtain ⟨_, _, _, _, rfl⟩ := h
      exact .kept le_rfl

end Calls

/-- The account registered no permit signer and no allowance on it is active after ledger 0. -/
structure Unapproved (account : Address) (s : State) : Prop where
  signer : s.permitSigner account = none
  expired : ∀ spender v, s.allowance (account, spender) = some v → v.expirationLedger = 0

/-- The account signs nothing but its own plain transfers. -/
def OnlyTransfers (account : Address) (i : Invocation) : Prop :=
  0 < i.sequence ∧
    (account ∈ i.auths → ∃ target amount, i.call = .transfer account target amount)

section Unapproved
variable {d : Deployment} {account : Address} {i : Invocation} {s t : State}

theorem unapproved_empty (account : Address) : Unapproved account State.empty :=
  ⟨rfl, fun _ _ h => nomatch h⟩

theorem Unapproved.getAllowance_eq_zero (hs : Unapproved account s) {sequence : ℕ}
    (hseq : 0 < sequence) (spender : Address) : getAllowance sequence account spender s = 0 := by
  unfold getAllowance
  cases hv : s.allowance (account, spender) with
  | none => rfl
  | some v =>
    have hinactive : allowanceIsActive sequence v.expirationLedger = false := by
      rw [hs.expired spender v hv]
      simp [allowanceIsActive, allowanceExpiryGraceLedgers, saturatingAddU32]
      omega
    simp [hinactive]

theorem signer_step (hs : Unapproved account s) (hi : OnlyTransfers account i)
    (h : exec d i s = .ok t) : t.permitSigner account = none := by
  have hkeep : ∀ {u : State}, u.offices.permitSigner = s.permitSigner → u.permitSigner account = none :=
    fun {u} hu => (congrFun hu account).trans hs.signer
  cases exec_officeMove h with
  | idle _ ho => exact hkeep (by rw [ho]; rfl)
  | opened _ _ _ _ _ _ _ ho | proposed _ _ _ _ _ ho | accepted _ _ _ _ ho | withdrawn _ _ _ _ ho
  | assigned _ _ _ _ _ ho | revoked _ _ _ _ ho | permitted _ _ _ _ _ _ _ _ _ _ _ _ _ _ ho =>
    exact hkeep (by rw [ho]; rfl)
  | registered owner publicKey hcall hauth ho =>
    have hne : account ≠ owner := by
      rintro rfl
      obtain ⟨_, _, hsent⟩ := hi.2 hauth
      rw [hcall] at hsent
      cases hsent
    have hsigner := congrArg Offices.permitSigner ho
    change t.permitSigner = _ at hsigner
    rw [hsigner]
    change Function.update _ _ _ _ = _
    rw [Function.update_of_ne hne]
    exact hs.signer

theorem noApproval_of_ok (hs : Unapproved account s) (hi : OnlyTransfers account i)
    (h : exec d i s = .ok t) (spender : Address) : NoApproval account spender i := by
  have hsigned : account ∈ i.auths → (∃ target amount, i.call = .transfer account target amount) :=
    hi.2
  unfold exec at h
  unfold NoApproval
  cases hc : i.call <;> simp only [hc] at h hsigned ⊢
  case approve owner _ _ _ =>
    simp only [approve, bind_eq_ok, requireAuth_eq_ok] at h
    obtain ⟨_, hauth, _⟩ := h
    rintro ⟨rfl, _⟩
    obtain ⟨_, _, hsent⟩ := hsigned hauth
    cases hsent
  case increaseAllowance owner _ _ =>
    simp only [increaseAllowance, bind_eq_ok, requireAuth_eq_ok] at h
    obtain ⟨_, hauth, _⟩ := h
    rintro ⟨rfl, _⟩
    obtain ⟨_, _, hsent⟩ := hsigned hauth
    cases hsent
  case decreaseAllowance owner _ _ =>
    simp only [decreaseAllowance, bind_eq_ok, requireAuth_eq_ok] at h
    obtain ⟨_, hauth, _⟩ := h
    rintro ⟨rfl, _⟩
    obtain ⟨_, _, hsent⟩ := hsigned hauth
    cases hsent
  case approveWithSignature owner _ _ _ _ _ =>
    simp only [approveWithSignature, bind_eq_ok, okOr_eq_ok] at h
    obtain ⟨_, _, _, _, _, _, _, _, publicKey, hkey, _⟩ := h
    rintro ⟨rfl, _⟩
    rw [hs.signer] at hkey
    cases hkey

/-- A deduction that passes without an approval is of no positive amount, and leaves an
    allowance that expired at ledger 0. -/
theorem Unapproved.deduct (hs : Unapproved account s) {ctx : Context} {spender : Address}
    {amount : ℤ} (h : validateAndDeductAllowance ctx account spender amount s = .ok t) :
    ∃ left, t.allowance (account, spender) = some ⟨left, 0⟩ := by
  have hexpired : (readActiveAllowance ctx.sequence account spender s).2 = 0 := by
    unfold readActiveAllowance
    cases hv : s.allowance (account, spender) with
    | none => rfl
    | some v =>
      dsimp only
      split
      · exact hs.expired spender v hv
      · rfl
  simp only [validateAndDeductAllowance, bind_eq_ok, pure_eq_ok] at h
  obtain ⟨_, _, left, _, rfl⟩ := h
  refine ⟨left, ?_⟩
  rw [hexpired]
  exact Function.update_self ..

theorem transferImpl_allowance {ctx : Context} {source recipient : Address} {amount : ℤ}
    (h : transferImpl ctx source recipient amount s = .ok t) : t.allowance = s.allowance :=
  (transferImpl_debit h).1

theorem removeTokens_allowance {owner : Address} {amount : ℤ}
    (h : removeTokens owner amount s = .ok t) : t.allowance = s.allowance := by
  obtain ⟨_, _, rfl, _⟩ := removeTokens_ok h
  rfl

theorem expired_step (hs : Unapproved account s) (hi : OnlyTransfers account i)
    (h : exec d i s = .ok t) {spender : Address} {v : AllowanceValue}
    (hv : t.allowance (account, spender) = some v) : v.expirationLedger = 0 := by
  cases hspends : i.call.spends account spender with
  | false =>
    rcases exec_allowance h (noApproval_of_ok hs hi h spender) hspends with hkeep | hnone
    · exact hs.expired spender v (hkeep ▸ hv)
    · rw [hnone] at hv
      cases hv
  | true =>
    have hleft : ∃ left, t.allowance (account, spender) = some ⟨left, 0⟩ := by
      unfold exec at h
      cases hc : i.call <;> simp only [hc, Call.spends, Bool.false_eq_true] at h hspends
      case transferFrom p owner recipient amount =>
        obtain ⟨rfl, rfl⟩ := of_decide_eq_true hspends
        obtain ⟨u, hu, hpaid⟩ := transferFrom_ok h
        rw [transferImpl_allowance hpaid]
        exact hs.deduct hu
      case burnFrom p owner amount =>
        obtain ⟨rfl, rfl⟩ := of_decide_eq_true hspends
        obtain ⟨u, hu, hburned⟩ := burnFrom_ok h
        rw [removeTokens_allowance hburned]
        exact hs.deduct hu
    obtain ⟨left, hleft⟩ := hleft
    rw [hleft] at hv
    cases hv
    rfl

theorem unapproved_step (hs : Unapproved account s) (hi : OnlyTransfers account i)
    (h : exec d i s = .ok t) : Unapproved account t :=
  ⟨signer_step hs hi h, fun _ _ hv => expired_step hs hi h hv⟩

/-- What such an account loses in one call it sent itself, or the admin in office took. -/
def SentOrSeized (account : Address) (i : Invocation) (s t : State) : Prop :=
  (∃ target amount, account ∈ i.auths ∧ i.call = .transfer account target amount ∧
    balance t account = balance s account - amount ∧
    balance t target = balance s target + amount) ∨
  (∃ admin amount, s.admin = some admin ∧ admin ∈ i.auths ∧ admin ≠ account ∧
    (i.call = .adminBurn account amount ∨ i.call = .confiscateBlacklisted account amount) ∧
    balance t account = balance s account - amount)

theorem sentOrSeized_of_ok (hs : Unapproved account s) (hi : OnlyTransfers account i)
    (h : exec d i s = .ok t) (hless : balance t account < balance s account) :
    SentOrSeized account i s t := by
  cases exec_debit h account with
  | kept hkept => omega
  | byOwner _ hauth _ hsent =>
    obtain ⟨target, amount, hcall⟩ := hi.2 hauth
    have hpaid : transfer d i.toContext account target amount s = .ok t := by
      unfold exec at h
      rw [hcall] at h
      exact h
    rcases transferImpl_balance (transfer_ok hpaid) with ⟨rfl, _⟩ | ⟨_, _, hdebit, hcredit, _⟩
    · omega
    · exact .inl ⟨target, amount, hauth, hcall, hdebit, hcredit⟩
  | bySpender spender amount _ _ _ hpos hallowed _ =>
    rw [hs.getAllowance_eq_zero hi.1] at hallowed
    omega
  | byAdmin admin amount hcall hadmin hauth _ hb =>
    refine .inr ⟨admin, amount, hadmin, hauth, ?_, hcall, hb⟩
    rintro rfl
    obtain ⟨_, _, hsent⟩ := hi.2 hauth
    rcases hcall with hc | hc <;> rw [hc] at hsent <;> cases hsent

end Unapproved

/-- In every run from the empty storage, an account that signs nothing but its own transfers
    loses tokens only by them, each time exactly what the target gains, or to the admin. -/
theorem unsigned_balance_kept (d : Deployment) (account : Address) (is : List Invocation)
    (h : ∀ i ∈ is, OnlyTransfers account i) :
    ∀ e ∈ history (exec d) State.empty is, balance e.after account < balance e.before account →
      SentOrSeized account e.invocation e.before e.after := by
  intro e he hless
  have hall : Along (exec d) (fun _ i => True ∧ OnlyTransfers account i) State.empty is :=
    (along_true (exec d) State.empty is).and_forall h
  obtain ⟨hbefore, ⟨_, hi⟩, hexec⟩ := history_mem (I := Unapproved account)
    (fun s i t hs hP ht => unapproved_step hs hP.2 ht) (unapproved_empty account) hall he
  exact sentOrSeized_of_ok hbefore hi hexec hless

/-- Alice sends 30 of her 100; a spender she never approved gets nothing; the admin burns 20. -/
def demoHoldings : List Invocation :=
  [demoCreate none, demoMint,
    { sequence := 3, auths := [demoAlice], call := .transfer demoAlice demoBob 30 },
    { sequence := 4, auths := [demoBob], call := .burnFrom demoBob demoAlice (-5) },
    { sequence := 5, auths := [demoBob], call := .transferFrom demoBob demoAlice demoBob 4 },
    { sequence := 6, auths := [demoAdmin], call := .adminBurn demoAlice 20 }]

theorem unsigned_balance_kept_demo :
    (∀ i ∈ demoHoldings, OnlyTransfers demoAlice i) ∧
      balance (run demoDeployment State.empty demoHoldings) demoAlice = 55 ∧
      ∀ e ∈ history (exec demoDeployment) State.empty demoHoldings,
        balance e.after demoAlice < balance e.before demoAlice →
          SentOrSeized demoAlice e.invocation e.before e.after := by
  have hsigned : ∀ i ∈ demoHoldings, OnlyTransfers demoAlice i := by
    intro i hi
    simp only [demoHoldings, List.mem_cons, List.not_mem_nil, or_false] at hi
    rcases hi with rfl | rfl | rfl | rfl | rfl | rfl
    case inr.inr.inl => exact ⟨by decide, fun _ => ⟨demoBob, 30, rfl⟩⟩
    all_goals exact ⟨by decide, fun hauth => absurd hauth (by decide)⟩
  exact ⟨hsigned, by decide +kernel,
    unsigned_balance_kept demoDeployment demoAlice demoHoldings hsigned⟩

/-- No admin in office authorizes the call. -/
def Unadministered (s : State) (i : Invocation) : Prop :=
  ∀ admin, s.admin = some admin → admin ∉ i.auths

section Gates
variable {d : Deployment} {i : Invocation} {s t : State}

theorem gates_kept (hi : Unadministered s i) (h : exec d i s = .ok t) :
    t.paused = s.paused ∧ t.frozen = s.frozen ∧ t.blacklisted = s.blacklisted := by
  rcases exec_powers h with hpowers | ⟨_, admin, hadmin, hauth⟩
  · exact ⟨congrArg Powers.paused hpowers, congrArg Powers.frozen hpowers,
      congrArg Powers.blacklisted hpowers⟩
  · exact (hi admin hadmin hauth).elim

theorem paused_balance (hi : Unadministered s i) (h : exec d i s = .ok t)
    (hpausable : d.features.pausable) (hpaused : s.paused = some true) : t.balance = s.balance := by
  have hshut : requireNotPaused d s = .error (.error .unauthorized) :=
    rejectIf_pos ⟨hpausable, by rw [hpaused]; rfl⟩
  cases hmoney : i.call.isMoney with
  | false => exact (exec_quiet h hmoney).balance
  | true =>
    unfold exec at h
    cases hc : i.call <;> simp only [hc, Call.isMoney, Bool.false_eq_true] at h hmoney
    case confiscateBlacklisted =>
      simp only [confiscateBlacklisted, gated, requireAdmin, bind_eq_ok, okOr_eq_ok,
        requireAuth_eq_ok] at h
      obtain ⟨_, _, admin, hadmin, _, hauth, _⟩ := h
      exact (hi admin hadmin hauth).elim
    case increaseAllowance | decreaseAllowance =>
      simp only [increaseAllowance, decreaseAllowance, bind_eq_ok, pure_eq_ok] at h
      obtain ⟨_, _, _, _, rfl⟩ := h
      rfl
    all_goals
      simp only [mint, batchMint, adminBurn, burn, burnFrom, transfer, transferFrom, transferToMany,
        transferBatch, debitOnceCreditEach, approve, hshut, bind_eq_ok, reduceCtorEq, false_and,
        exists_false, and_false] at h

theorem shut_balance (hi : Unadministered s i) (h : exec d i s = .ok t) {account : Address}
    (hshut : ¬ Spendable d account s) : balance s account ≤ balance t account := by
  cases exec_debit h account with
  | kept hkept => exact hkept
  | byOwner _ _ hopen _ | bySpender _ _ _ _ hopen _ _ _ => exact (hshut hopen).elim
  | byAdmin admin _ _ hadmin hauth _ _ => exact (hi admin hadmin hauth).elim

end Gates

/-- As long as no admin in office authorizes a call, a paused token changes no balance at all,
    and an account that is frozen or blacklisted loses nothing. -/
theorem gates_stop_spending (d : Deployment) (s : State) (is : List Invocation)
    (h : Along (exec d) Unadministered s is) :
    (d.features.pausable → s.paused = some true → (run d s is).balance = s.balance) ∧
      ∀ account, ¬ Spendable d account s →
        ¬ Spendable d account (run d s is) ∧ balance s account ≤ balance (run d s is) account := by
  refine ⟨fun hpausable hpaused => ?_, fun account hshut => ?_⟩
  · have hrun : (run d s is).paused = some true ∧ (run d s is).balance = s.balance := by
      refine run_invariant_along (I := fun u => u.paused = some true ∧ u.balance = s.balance) ?_
        ⟨hpaused, rfl⟩ h
      intro u i t hu hi ht
      rw [(gates_kept hi ht).1, paused_balance hi ht hpausable hu.1]
      exact hu
    exact hrun.2
  · refine run_invariant_along
      (I := fun u => ¬ Spendable d account u ∧ balance s account ≤ balance u account) ?_
      ⟨hshut, le_rfl⟩ h
    intro u i t hu hi ht
    obtain ⟨hpaused, hfrozen, hblack⟩ := gates_kept hi ht
    have hsame : Spendable d account t ↔ Spendable d account u := by
      unfold Spendable isBlacklisted
      rw [hpaused, hfrozen, hblack]
    exact ⟨fun hopen => hu.1 (hsame.mp hopen), hu.2.trans (shut_balance hi ht hu.1)⟩

/-- Alice is frozen: she can not send, and the spender she approved can not take. -/
def demoFrozen : State :=
  run demoDeployment State.empty [demoCreate none, demoMint,
    { sequence := 3, auths := [demoAlice], call := .approve demoAlice demoBob 50 1000 },
    { sequence := 4, auths := [demoAdmin], call := .freezeAccount demoAlice }]

def demoThaw : List Invocation :=
  [{ sequence := 5, auths := [demoAlice], call := .transfer demoAlice demoBob 30 },
    { sequence := 6, auths := [demoBob], call := .transferFrom demoBob demoAlice demoBob 40 },
    { sequence := 7, auths := [demoAlice], call := .unfreezeAccount demoAlice }]

theorem gates_stop_spending_demo :
    balance demoFrozen demoAlice = 100 ∧
      balance demoFrozen demoAlice ≤ balance (run demoDeployment demoFrozen demoThaw) demoAlice := by
  have hadmin : demoFrozen.admin = some demoAdmin := by decide +kernel
  have hshut : ¬ Spendable demoDeployment demoAlice demoFrozen := fun h => h.2.1 (by decide +kernel)
  have halone : Along (exec demoDeployment) Unadministered demoFrozen demoThaw := by
    refine ⟨?_, ?_, ?_, trivial⟩
    all_goals
      intro admin hsome
      obtain rfl : admin = demoAdmin := Option.some.inj (hsome.symm.trans (by decide +kernel))
      decide
  exact ⟨by decide +kernel,
    ((gates_stop_spending demoDeployment demoFrozen demoThaw halone).2 demoAlice hshut).2⟩

end SorobanKit.Token
