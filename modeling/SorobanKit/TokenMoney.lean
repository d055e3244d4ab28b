import SorobanKit.TokenSupply

set_option autoImplicit false

/-!
# What a call may touch

The calls that move tokens or set allowances write balances, the supply and allowances, and
nothing else; what they write fits an `i128` because they compute with checked arithmetic.
`MoneyMove` says both, so that steps one after the other are one step again.
-/
namespace SorobanKit.Token
open HostBalances HostInteger HostInvocation

structure MoneyMove (s t : State) : Prop where
  only : ∃ b n a, t = { s with balance := b, supply := n, allowance := a }
  balances : (∀ account, InI128 (balance s account)) → ∀ account, InI128 (balance t account)
  supply : InI128 (totalSupply s) → InI128 (totalSupply t)

theorem MoneyMove.refl (s : State) : MoneyMove s s := ⟨⟨_, _, _, rfl⟩, id, id⟩

theorem MoneyMove.trans {s t u : State} (h₁ : MoneyMove s t) (h₂ : MoneyMove t u) :
    MoneyMove s u := by
  refine ⟨?_, fun h => h₂.balances (h₁.balances h), fun h => h₂.supply (h₁.supply h)⟩
  obtain ⟨b, n, a, rfl⟩ := h₁.only
  obtain ⟨b', n', a', rfl⟩ := h₂.only
  exact ⟨b', n', a', rfl⟩

/-- One balance is written with a checked result. -/
theorem moneyMove_insert {s : State} (account : Address) {amount : ℤ} (h : InI128 amount) :
    MoneyMove s { s with balance := s.balance.insert account amount } := by
  refine ⟨⟨_, _, _, rfl⟩, ?_, id⟩
  intro hs other
  by_cases hother : other = account
  · subst hother
    rw [balance, entry_insert_self]
    exact h
  · rw [balance, entry_insert_of_ne _ _ hother]
    exact hs other

theorem setAllowance_moneyMove (owner spender : Address) (amount : ℤ) (expirationLedger : ℕ)
    (s : State) : MoneyMove s (setAllowance owner spender amount expirationLedger s) :=
  ⟨⟨_, _, _, rfl⟩, id, id⟩

theorem updateBalance_moneyMove {account : Address} {delta : ℤ} {s t : State}
    (h : updateBalance account delta s = .ok t) : MoneyMove s t := by
  simp only [updateBalance, bind_eq_ok, okOr_eq_ok, checkedAdd_eq_some, pure_eq_ok] at h
  obtain ⟨_, ⟨hfits, rfl⟩, _, _, rfl⟩ := h
  exact moneyMove_insert account hfits

theorem creditLoop_moneyMove {entries : List (Address × ℤ)} {s t : State}
    (h : entries.foldlM (fun s (x : Address × ℤ) => creditBalance x.1 x.2 s) s = .ok t) :
    MoneyMove s t := by
  induction entries generalizing s with
  | nil =>
    rw [List.foldlM_nil, pure_eq_ok] at h
    rw [h]
    exact .refl t
  | cons x entries ih =>
    simp only [List.foldlM_cons, bind_eq_ok, creditBalance, okOr_eq_ok, checkedAdd_eq_some,
      pure_eq_ok] at h
    obtain ⟨u, ⟨_, ⟨hfits, rfl⟩, rfl⟩, h⟩ := h
    exact (moneyMove_insert x.1 hfits).trans (ih h)

theorem raiseSupply_moneyMove {amount : ℤ} {s t : State} (h : raiseSupply amount s = .ok t) :
    MoneyMove s t := by
  simp only [raiseSupply, bind_eq_ok, okOr_eq_ok, checkedAdd_eq_some, pure_eq_ok] at h
  obtain ⟨_, ⟨hfits, rfl⟩, rfl⟩ := h
  exact ⟨⟨_, _, _, rfl⟩, id, fun _ => hfits⟩

theorem removeTokens_moneyMove {account : Address} {amount : ℤ} {s t : State}
    (h : removeTokens account amount s = .ok t) : MoneyMove s t := by
  simp only [removeTokens, bind_eq_ok, okOr_eq_ok, checkedSub_eq_some, pure_eq_ok] at h
  obtain ⟨_, _, u, hu, _, ⟨hfits, rfl⟩, rfl⟩ := h
  exact (updateBalance_moneyMove hu).trans ⟨⟨_, _, _, rfl⟩, id, fun _ => hfits⟩

theorem validateAndDeductAllowance_moneyMove {ctx : Context} {owner spender : Address} {amount : ℤ}
    {s t : State} (h : validateAndDeductAllowance ctx owner spender amount s = .ok t) :
    MoneyMove s t := by
  obtain ⟨a, rfl⟩ := validateAndDeductAllowance_ok h
  exact ⟨⟨_, _, _, rfl⟩, id, id⟩

theorem transferImpl_moneyMove {ctx : Context} {source recipient : Address} {amount : ℤ}
    {s t : State} (h : transferImpl ctx source recipient amount s = .ok t) : MoneyMove s t := by
  unfold transferImpl at h
  split at h
  · rw [pure_eq_ok] at h
    rw [h]
    exact .refl t
  · simp only [bind_eq_ok] at h
    obtain ⟨_, _, _, _, _, _, u, hu, h⟩ := h
    exact (updateBalance_moneyMove hu).trans (updateBalance_moneyMove h)

theorem debitOnceCreditEach_moneyMove {d : Deployment} {ctx : Context} {source : Address}
    {recipients : List (Address × ℤ)} {s t : State}
    (h : debitOnceCreditEach d ctx source recipients s = .ok t) : MoneyMove s t := by
  simp only [debitOnceCreditEach, bind_eq_ok, okOr_eq_ok, checkedSub_eq_some] at h
  obtain ⟨_, _, _, _, _, _, _, _, _, _, _, _, _, _, _, _, _, ⟨hfits, rfl⟩, h⟩ := h
  rw [foldlM_skip (fun x : Address × ℤ => source = x.1)] at h
  exact (moneyMove_insert source hfits).trans (creditLoop_moneyMove h)

/-- The calls that move tokens or set allowances. -/
def Call.isMoney : Call → Bool
  | .mint .. | .batchMint _ | .adminBurn .. | .burn .. | .burnFrom .. | .transfer ..
  | .transferFrom .. | .transferToMany .. | .transferBatch .. | .confiscateBlacklisted ..
  | .approve .. | .increaseAllowance .. | .decreaseAllowance .. => true
  | _ => false

theorem exec_moneyMove {d : Deployment} {i : Invocation} {s t : State} (h : exec d i s = .ok t)
    (hcall : i.call.isMoney) : MoneyMove s t := by
  unfold exec at h
  cases hc : i.call <;> simp only [hc, Call.isMoney, Bool.false_eq_true] at h hcall
  case mint =>
    obtain ⟨_, _, _, u, hu, h⟩ := mint_ok h
    exact (updateBalance_moneyMove hu).trans (raiseSupply_moneyMove h)
  case batchMint =>
    obtain ⟨_, _, u, _, _, hu, h⟩ := batchMint_ok h
    exact (creditLoop_moneyMove hu).trans (raiseSupply_moneyMove h)
  case adminBurn =>
    exact removeTokens_moneyMove (adminBurn_ok h).2
  case burn =>
    exact removeTokens_moneyMove (burn_ok h).2
  case burnFrom =>
    obtain ⟨u, hu, h⟩ := burnFrom_ok h
    exact (validateAndDeductAllowance_moneyMove hu).trans (removeTokens_moneyMove h)
  case transfer =>
    exact transferImpl_moneyMove (transfer_ok h)
  case transferFrom =>
    obtain ⟨u, hu, h⟩ := transferFrom_ok h
    exact (validateAndDeductAllowance_moneyMove hu).trans (transferImpl_moneyMove h)
  case transferToMany | transferBatch => exact debitOnceCreditEach_moneyMove h
  case confiscateBlacklisted =>
    obtain ⟨_, u, hu, h⟩ := confiscateBlacklisted_ok h
    exact (updateBalance_moneyMove hu).trans (updateBalance_moneyMove h)
  case approve =>
    simp only [approve, bind_eq_ok, pure_eq_ok] at h
    obtain ⟨_, _, _, _, _, _, rfl⟩ := h
    exact setAllowance_moneyMove ..
  case increaseAllowance | decreaseAllowance =>
    simp only [increaseAllowance, decreaseAllowance, bind_eq_ok, pure_eq_ok] at h
    obtain ⟨_, _, _, _, rfl⟩ := h
    exact setAllowance_moneyMove ..

/-- What the other calls leave alone: the balances, the supply unless the token is created, and
    the snapshots unless one is taken. -/
structure Quiet (call : Call) (s t : State) : Prop where
  balance : t.balance = s.balance
  supply : t.supply = s.supply ∨ totalSupply t = 0
  snapshots : (∀ caller ledger, call ≠ .snapshot caller ledger) →
    t.snapshot = s.snapshot ∧ t.snapshotHistory = s.snapshotHistory

theorem initializeToken_quiet {d : Deployment} {ctx : Context} {admin : Address}
    {name symbol : String} {decimals : ℕ} {maxSupply : Option ℤ} {s t : State} (call : Call)
    (h : initializeToken d ctx admin name symbol decimals maxSupply s = .ok t) :
    Quiet call s t := by
  obtain ⟨_, _, hbalance, hsupply, _⟩ := initializeToken_ok h
  refine ⟨hbalance, .inr hsupply, fun _ => ?_⟩
  simp only [initializeToken, bind_eq_ok] at h
  obtain ⟨_, _, _, _, h⟩ := h
  split at h
  · simp only [bind_eq_ok, pure_eq_ok] at h
    obtain ⟨_, _, rfl⟩ := h
    exact ⟨rfl, rfl⟩
  · rw [pure_eq_ok] at h
    subst h
    exact ⟨rfl, rfl⟩

theorem exec_quiet {d : Deployment} {i : Invocation} {s t : State} (h : exec d i s = .ok t)
    (hcall : i.call.isMoney = false) : Quiet i.call s t := by
  unfold exec at h
  cases hc : i.call <;> simp only [hc, Call.isMoney, Bool.true_eq_false] at h hcall
  case initializeToken => exact initializeToken_quiet _ h
  case approveWithSignature =>
    simp only [approveWithSignature, bind_eq_ok, pure_eq_ok] at h
    obtain ⟨_, _, _, _, _, _, _, _, _, _, _, _, _, _, _, _, rfl⟩ := h
    exact ⟨rfl, .inl rfl, fun _ => ⟨rfl, rfl⟩⟩
  case setPermitSigner | cancelPermitNonce =>
    simp only [setPermitSigner, cancelPermitNonce, bind_eq_ok, pure_eq_ok] at h
    obtain ⟨_, _, rfl⟩ := h
    exact ⟨rfl, .inl rfl, fun _ => ⟨rfl, rfl⟩⟩
  case acceptAdmin =>
    simp only [acceptAdmin, bind_eq_ok, pure_eq_ok] at h
    obtain ⟨_, _, _, _, rfl⟩ := h
    exact ⟨rfl, .inl rfl, fun _ => ⟨rfl, rfl⟩⟩
  case snapshot caller ledger =>
    simp only [snapshot, bind_eq_ok, pure_eq_ok] at h
    obtain ⟨_, _, rfl⟩ := h
    exact ⟨rfl, .inl rfl, fun hother => absurd rfl (hother caller ledger)⟩
  case evictAllowance =>
    rw [pure_eq_ok] at h
    subst h
    exact ⟨rfl, .inl rfl, fun _ => ⟨rfl, rfl⟩⟩
  case proposeAdmin | cancelAdminProposal | setAdmin | setTransferLock =>
    obtain ⟨_, rfl⟩ := asAdmin_ok h
    exact ⟨rfl, .inl rfl, fun _ => ⟨rfl, rfl⟩⟩
  all_goals
    simp only [pause, unpause, freezeAccount, unfreezeAccount, blacklist, unblacklist,
      setComplianceTreasury, setTransferHook, gated, bind_eq_ok] at h
    obtain ⟨_, _, h⟩ := h
    obtain ⟨_, rfl⟩ := asAdmin_ok h
    exact ⟨rfl, .inl rfl, fun _ => ⟨rfl, rfl⟩⟩

/-- Only `snapshot` writes the snapshot keys. -/
theorem exec_snapshots {d : Deployment} {i : Invocation} {s t : State} (h : exec d i s = .ok t)
    (hcall : ∀ caller ledger, i.call ≠ .snapshot caller ledger) :
    t.snapshot = s.snapshot ∧ t.snapshotHistory = s.snapshotHistory := by
  cases hmoney : i.call.isMoney with
  | true =>
    obtain ⟨b, n, a, rfl⟩ := (exec_moneyMove h hmoney).only
    exact ⟨rfl, rfl⟩
  | false => exact (exec_quiet h hmoney).snapshots hcall

/-- What the contract stores as `i128` is one. -/
structure Fits (s : State) : Prop where
  balances : ∀ account, InI128 (balance s account)
  supply : InI128 (totalSupply s)

theorem fits_empty : Fits State.empty := by
  refine ⟨fun account => ?_, by decide⟩
  have hzero : balance State.empty account = 0 := rfl
  rw [hzero]
  decide

theorem fits_step {d : Deployment} {i : Invocation} {s t : State} (hs : Fits s)
    (h : exec d i s = .ok t) : Fits t := by
  cases hmoney : i.call.isMoney with
  | true =>
    have hmove := exec_moneyMove h hmoney
    exact ⟨hmove.balances hs.balances, hmove.supply hs.supply⟩
  | false =>
    have hquiet := exec_quiet h hmoney
    refine ⟨fun account => ?_, ?_⟩
    · rw [balance, hquiet.balance]
      exact hs.balances account
    · rcases hquiet.supply with hsame | hzero
      · rw [totalSupply, hsame]
        exact hs.supply
      · rw [hzero]
        decide

theorem run_fits (d : Deployment) (is : List Invocation) : Fits (run d State.empty is) :=
  HostRuns.run_invariant (fun _ _ _ hs h => fits_step hs h) fits_empty is

theorem nonneg_step {d : Deployment} {i : Invocation} {s t : State}
    (hs : NonnegEntries s.balance) (h : exec d i s = .ok t) : NonnegEntries t.balance := by
  cases exec_move h with
  | idle hb | created _ hb =>
    rw [hb]
    exact hs
  | minted _ _ _ _ _ _ _ _ hn | burned _ _ _ _ _ hn | moved _ _ _ _ hn => exact hn hs

/-- No balance is negative, also where the supply is not conserved. -/
theorem run_nonneg (d : Deployment) (is : List Invocation) (account : Address) :
    0 ≤ balance (run d State.empty is) account := by
  have hentries : NonnegEntries (run d State.empty is).balance :=
    HostRuns.run_invariant (I := fun s => NonnegEntries s.balance)
      (fun _ i _ hs (h : exec d i _ = .ok _) => nonneg_step hs h) nonneg_empty is
  exact hentries.entry_nonneg account

end SorobanKit.Token
