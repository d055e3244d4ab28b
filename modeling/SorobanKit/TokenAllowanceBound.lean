import SorobanKit.TokenConservation

set_option autoImplicit false

/-!
# What a spender can take out of one approval

After `approve` the stored amount pays for every debit: a deduction lowers it by at least
what leaves the owner's balance. That needs the spent amounts to be non-negative, which
`burn_from` never checks and `transfer_from` checks only when the recipient is not the
owner itself.
-/
namespace SorobanKit.Token
open HostBalances HostInteger HostInvocation HostRuns

/-- The stored amount, whether or not it has expired. -/
def storedAllowance (owner spender : Address) (s : State) : ℤ :=
  match s.allowance (owner, spender) with
  | some v => v.amount
  | none => 0

/-- `transfer_from` and `burn_from` of this spender on this owner. -/
def Call.spends (owner spender : Address) : Call → Bool
  | .transferFrom p o _ _ => o = owner ∧ p = spender
  | .burnFrom p o _ => o = owner ∧ p = spender
  | _ => false

/-- What one invocation takes from the owner's balance as the spender's spending. -/
def debit (d : Deployment) (owner spender : Address) (s : State) (i : Invocation) : ℤ :=
  if i.call.spends owner spender then balance s owner - balance (step (exec d) s i) owner else 0

def debited (d : Deployment) (owner spender : Address) : State → List Invocation → ℤ
  | _, [] => 0
  | s, i :: is => debit d owner spender s i + debited d owner spender (step (exec d) s i) is

/-- No new approval of this spender by this owner, in any of the four ways. -/
def NoApproval (owner spender : Address) (i : Invocation) : Prop :=
  match i.call with
  | .approve o p _ _ => ¬ (o = owner ∧ p = spender)
  | .increaseAllowance o p _ => ¬ (o = owner ∧ p = spender)
  | .decreaseAllowance o p _ => ¬ (o = owner ∧ p = spender)
  | .approveWithSignature o p _ _ _ _ => ¬ (o = owner ∧ p = spender)
  | _ => True

/-- The two ways to spend a negative amount are left out. -/
def NonnegSpend (owner spender : Address) (i : Invocation) : Prop :=
  match i.call with
  | .burnFrom p o amount => o = owner ∧ p = spender → 0 ≤ amount
  | .transferFrom p o recipient amount => o = owner ∧ p = spender → recipient = owner → 0 ≤ amount
  | _ => True

theorem getAllowance_bounds {q : ℕ} {owner spender : Address} {s : State}
    (hs : 0 ≤ storedAllowance owner spender s) :
    0 ≤ getAllowance q owner spender s ∧
      getAllowance q owner spender s ≤ storedAllowance owner spender s := by
  unfold getAllowance
  unfold storedAllowance at hs ⊢
  cases hv : s.allowance (owner, spender) with
  | none => simp
  | some v =>
    simp only [hv] at hs ⊢
    split <;> omega

theorem setAllowance_stored (owner spender : Address) (amount : ℤ) (expirationLedger : ℕ)
    (s : State) :
    storedAllowance owner spender (setAllowance owner spender amount expirationLedger s) =
      amount := by
  simp [storedAllowance, setAllowance]

/-- A deduction of a non-negative amount lowers the stored allowance by at least that
    amount, and the active allowance at no ledger rises. -/
theorem validateAndDeductAllowance_spec {ctx : Context} {owner spender : Address} {amount : ℤ}
    {s t : State} (h : validateAndDeductAllowance ctx owner spender amount s = .ok t)
    (hs : 0 ≤ storedAllowance owner spender s) (hpos : 0 ≤ amount) :
    0 ≤ storedAllowance owner spender t ∧
      amount + storedAllowance owner spender t ≤ storedAllowance owner spender s ∧
      ∀ q, getAllowance q owner spender t ≤ getAllowance q owner spender s := by
  simp only [validateAndDeductAllowance, bind_eq_ok, rejectIf_eq_ok, unwrap_eq_ok,
    checkedSub_eq_some, pure_eq_ok] at h
  obtain ⟨_, hle, _, ⟨_, rfl⟩, rfl⟩ := h
  have hbounds := @getAllowance_bounds ctx.sequence owner spender s hs
  rw [readActiveAllowance_fst] at hle ⊢
  rw [setAllowance_stored]
  refine ⟨by omega, by omega, ?_⟩
  intro q
  have hq := (@getAllowance_bounds q owner spender s hs).1
  unfold readActiveAllowance getAllowance setAllowance
  simp only [Function.update_self]
  unfold getAllowance at hle hq
  cases hv : s.allowance (owner, spender) with
  | none =>
    simp only [hv] at hle ⊢
    split <;> omega
  | some v =>
    simp only [hv] at hle hq ⊢
    by_cases hactive : allowanceIsActive ctx.sequence v.expirationLedger
    · simp only [hactive, ↓reduceIte] at hle ⊢
      split <;> simp_all
    · simp only [hactive, Bool.false_eq_true, ↓reduceIte] at hle ⊢
      split <;> omega

theorem setAllowance_of_ne {o p owner spender : Address} (amount : ℤ) (expirationLedger : ℕ)
    (s : State) (h : ¬ (o = owner ∧ p = spender)) :
    (setAllowance o p amount expirationLedger s).allowance (owner, spender) =
      s.allowance (owner, spender) := by
  have hne : (owner, spender) ≠ (o, p) := by
    intro he
    cases he
    exact h ⟨rfl, rfl⟩
  simp [setAllowance, Function.update_of_ne hne]

theorem validateAndDeductAllowance_of_ne {ctx : Context} {o p owner spender : Address}
    {amount : ℤ} {s t : State} (h : validateAndDeductAllowance ctx o p amount s = .ok t)
    (hne : ¬ (o = owner ∧ p = spender)) :
    t.allowance (owner, spender) = s.allowance (owner, spender) := by
  simp only [validateAndDeductAllowance, bind_eq_ok, pure_eq_ok] at h
  obtain ⟨_, _, _, _, rfl⟩ := h
  exact setAllowance_of_ne _ _ s hne

theorem allowance_congr {owner spender : Address} {s t : State}
    (h : t.allowance (owner, spender) = s.allowance (owner, spender)) :
    storedAllowance owner spender t = storedAllowance owner spender s ∧
      ∀ q, getAllowance q owner spender t = getAllowance q owner spender s := by
  simp [storedAllowance, getAllowance, h]

/-- What one returning call of the spender does: the debit and what is left of the
    allowance are paid for by what was there before. -/
def PaidFor (owner spender : Address) (s t : State) : Prop :=
  0 ≤ storedAllowance owner spender t ∧
    balance s owner - balance t owner + storedAllowance owner spender t ≤
      storedAllowance owner spender s ∧
    ∀ q, getAllowance q owner spender t ≤ getAllowance q owner spender s

theorem burnFrom_paidFor {d : Deployment} {ctx : Context} {spender owner : Address} {amount : ℤ}
    {s t : State} (h : burnFrom d ctx spender owner amount s = .ok t)
    (hs : 0 ≤ storedAllowance owner spender s) (hpos : 0 ≤ amount) :
    PaidFor owner spender s t := by
  obtain ⟨u, hu, h⟩ := burnFrom_ok h
  obtain ⟨hnonneg, hpaid, hactive⟩ := validateAndDeductAllowance_spec hu hs hpos
  obtain ⟨a, rfl⟩ := validateAndDeductAllowance_ok hu
  obtain ⟨b, n, rfl, hb, _⟩ := removeTokens_ok h
  refine ⟨hnonneg, ?_, hactive⟩
  have hbefore : balance { s with allowance := a } owner = balance s owner := rfl
  change balance s owner - entry b owner + storedAllowance owner spender { s with allowance := a } ≤ _
  omega

theorem transferImpl_debit {ctx : Context} {source recipient : Address} {amount : ℤ}
    {s t : State} (h : transferImpl ctx source recipient amount s = .ok t) :
    t.allowance = s.allowance ∧
      (source = recipient ∧ balance t source = balance s source ∨
        source ≠ recipient ∧ 0 < amount ∧ balance t source = balance s source - amount) := by
  unfold transferImpl at h
  split at h
  · next hself =>
    simp only [pure_eq_ok] at h
    subst h
    exact ⟨rfl, .inl ⟨hself, rfl⟩⟩
  · next hne =>
    simp only [bind_eq_ok, rejectIf_eq_ok, unwrap_eq_ok, checkedNeg_eq_some] at h
    obtain ⟨_, hpos, _, _, _, ⟨_, rfl⟩, u, hu, h⟩ := h
    obtain ⟨_, rfl⟩ := updateBalance_ok hu
    obtain ⟨_, rfl⟩ := updateBalance_ok h
    refine ⟨rfl, .inr ⟨hne, by omega, ?_⟩⟩
    simp only [balance, entry_insert_of_ne _ _ hne, entry_insert_self]
    omega

theorem transferFrom_paidFor {d : Deployment} {ctx : Context} {spender owner recipient : Address}
    {amount : ℤ} {s t : State} (h : transferFrom d ctx spender owner recipient amount s = .ok t)
    (hs : 0 ≤ storedAllowance owner spender s) (hpos : recipient = owner → 0 ≤ amount) :
    PaidFor owner spender s t := by
  obtain ⟨u, hu, h⟩ := transferFrom_ok h
  obtain ⟨hkeep, hdebit⟩ := transferImpl_debit h
  have hsame := allowance_congr (congrFun hkeep (owner, spender))
  have hamount : 0 ≤ amount := by
    rcases hdebit with ⟨hself, _⟩ | ⟨_, hlt, _⟩
    · exact hpos hself.symm
    · omega
  obtain ⟨hnonneg, hpaid, hactive⟩ := validateAndDeductAllowance_spec hu hs hamount
  obtain ⟨a, rfl⟩ := validateAndDeductAllowance_ok hu
  have hbefore : balance { s with allowance := a } owner = balance s owner := rfl
  refine ⟨by omega, ?_, fun q => (hsame.2 q).le.trans (hactive q)⟩
  rcases hdebit with ⟨_, hb⟩ | ⟨_, _, hb⟩ <;> omega

theorem exec_allowance {d : Deployment} {owner spender : Address} {i : Invocation} {s t : State}
    (h : exec d i s = .ok t) (hno : NoApproval owner spender i)
    (hspend : i.call.spends owner spender = false) :
    t.allowance (owner, spender) = s.allowance (owner, spender) ∨
      t.allowance (owner, spender) = none := by
  unfold exec at h
  unfold NoApproval at hno
  cases hc : i.call <;> simp only [hc] at h hno hspend
  case initializeToken =>
    simp only [initializeToken, bind_eq_ok] at h
    obtain ⟨_, _, _, _, h⟩ := h
    split at h <;> simp only [bind_eq_ok, pure_eq_ok] at h
    · obtain ⟨_, _, rfl⟩ := h
      exact .inl rfl
    · exact .inl (by rw [← h])
  case mint =>
    obtain ⟨_, _, _, u, hu, h⟩ := mint_ok h
    obtain rfl := raiseSupply_ok h
    obtain ⟨_, rfl⟩ := updateBalance_ok hu
    exact .inl rfl
  case batchMint =>
    obtain ⟨_, _, u, _, _, hu, h⟩ := batchMint_ok h
    obtain rfl := raiseSupply_ok h
    obtain ⟨b, rfl, _⟩ := creditLoop_ok hu
    exact .inl rfl
  case adminBurn =>
    obtain ⟨b, n, rfl, _⟩ := removeTokens_ok (adminBurn_ok h).2
    exact .inl rfl
  case burn =>
    obtain ⟨b, n, rfl, _⟩ := removeTokens_ok (burn_ok h).2
    exact .inl rfl
  case burnFrom p o amount =>
    obtain ⟨u, hu, h⟩ := burnFrom_ok h
    have hkeep := validateAndDeductAllowance_of_ne hu (by simpa [Call.spends] using hspend)
    obtain ⟨b, n, rfl, _⟩ := removeTokens_ok h
    exact .inl hkeep
  case transfer =>
    exact .inl (congrFun (transferImpl_debit (transfer_ok h)).1 _)
  case transferFrom p o r amount =>
    obtain ⟨u, hu, h⟩ := transferFrom_ok h
    have hkeep := validateAndDeductAllowance_of_ne hu (by simpa [Call.spends] using hspend)
    exact .inl ((congrFun (transferImpl_debit h).1 _).trans hkeep)
  case transferToMany | transferBatch =>
    obtain ⟨_, b, rfl, _⟩ := debitOnceCreditEach_ok h
    exact .inl rfl
  case confiscateBlacklisted =>
    obtain ⟨_, u, hu, h⟩ := confiscateBlacklisted_ok h
    obtain ⟨_, rfl⟩ := updateBalance_ok hu
    obtain ⟨_, rfl⟩ := updateBalance_ok h
    exact .inl rfl
  case approve =>
    simp only [approve, bind_eq_ok, pure_eq_ok] at h
    obtain ⟨_, _, _, _, _, _, rfl⟩ := h
    exact .inl (setAllowance_of_ne _ _ _ hno)
  case increaseAllowance | decreaseAllowance =>
    simp only [increaseAllowance, decreaseAllowance, bind_eq_ok, pure_eq_ok] at h
    obtain ⟨_, _, _, _, rfl⟩ := h
    exact .inl (setAllowance_of_ne _ _ _ hno)
  case approveWithSignature =>
    simp only [approveWithSignature, bind_eq_ok, pure_eq_ok] at h
    obtain ⟨_, _, _, _, _, _, _, _, _, _, _, _, _, _, _, _, rfl⟩ := h
    exact .inl (setAllowance_of_ne _ _ _ hno)
  case setPermitSigner | cancelPermitNonce | snapshot =>
    simp only [setPermitSigner, cancelPermitNonce, snapshot, bind_eq_ok, pure_eq_ok] at h
    obtain ⟨_, _, rfl⟩ := h
    exact .inl rfl
  case acceptAdmin =>
    simp only [acceptAdmin, bind_eq_ok, pure_eq_ok] at h
    obtain ⟨_, _, _, _, rfl⟩ := h
    exact .inl rfl
  case evictAllowance o p =>
    simp only [pure_eq_ok] at h
    subst h
    by_cases hkey : (owner, spender) = (o, p)
    · exact .inr (by rw [hkey]; exact Function.update_self ..)
    · exact .inl (Function.update_of_ne hkey _ _)
  case setAdmin | proposeAdmin | cancelAdminProposal | setTransferLock =>
    obtain ⟨_, rfl⟩ := asAdmin_ok h
    exact .inl rfl
  all_goals
    simp only [pause, unpause, freezeAccount, unfreezeAccount, blacklist, unblacklist,
      setComplianceTreasury, setTransferHook, gated, bind_eq_ok] at h
    obtain ⟨_, _, h⟩ := h
    obtain ⟨_, rfl⟩ := asAdmin_ok h
    exact .inl rfl

/-- One invocation, returning or not: the stored allowance stays non-negative and pays for
    the debit, and a spending call does not raise the active allowance. -/
theorem step_allowance (d : Deployment) {owner spender : Address} {s : State} {i : Invocation}
    (hs : 0 ≤ storedAllowance owner spender s) (hno : NoApproval owner spender i)
    (hspend : NonnegSpend owner spender i) :
    0 ≤ storedAllowance owner spender (step (exec d) s i) ∧
      debit d owner spender s i + storedAllowance owner spender (step (exec d) s i) ≤
        storedAllowance owner spender s ∧
      (∀ q, i.call.spends owner spender → getAllowance q owner spender (step (exec d) s i) ≤
        getAllowance q owner spender s) := by
  rcases step_cases (exec d) s i with hok | hid
  · cases hcase : i.call.spends owner spender with
    | false =>
      have hdebit : debit d owner spender s i = 0 := by simp [debit, hcase]
      rw [hdebit, zero_add]
      rcases exec_allowance hok hno hcase with hkeep | hnone
      · rw [(allowance_congr hkeep).1]
        exact ⟨hs, le_refl _, fun _ h => nomatch h⟩
      · have hzero : storedAllowance owner spender (step (exec d) s i) = 0 := by
          simp [storedAllowance, hnone]
        rw [hzero]
        exact ⟨le_refl _, hs, fun _ h => nomatch h⟩
    | true =>
      have hpaid : PaidFor owner spender s (step (exec d) s i) := by
        generalize step (exec d) s i = t at hok
        unfold exec at hok
        unfold NonnegSpend at hspend
        cases hc : i.call <;> simp only [hc, Call.spends, Bool.false_eq_true] at hok hspend hcase
        case burnFrom p o amount =>
          obtain ⟨rfl, rfl⟩ : o = owner ∧ p = spender := by simpa using hcase
          exact burnFrom_paidFor hok hs (hspend ⟨rfl, rfl⟩)
        case transferFrom p o r amount =>
          obtain ⟨rfl, rfl⟩ : o = owner ∧ p = spender := by simpa using hcase
          exact transferFrom_paidFor hok hs (hspend ⟨rfl, rfl⟩)
      refine ⟨hpaid.1, ?_, fun q _ => hpaid.2.2 q⟩
      simpa [debit, hcase] using hpaid.2.1
  · have hdebit : debit d owner spender s i = 0 := by simp [debit, hid]
    rw [hdebit, hid]
    exact ⟨hs, by omega, fun _ _ => le_refl _⟩

theorem run_allowance (d : Deployment) {owner spender : Address} {s : State}
    {is : List Invocation} (hs : 0 ≤ storedAllowance owner spender s)
    (h : Along (exec d) (fun _ i => NoApproval owner spender i ∧ NonnegSpend owner spender i) s is) :
    0 ≤ storedAllowance owner spender (run d s is) ∧
      debited d owner spender s is + storedAllowance owner spender (run d s is) ≤
        storedAllowance owner spender s := by
  induction is generalizing s with
  | nil =>
    simp only [run, run_nil, debited]
    exact ⟨hs, by omega⟩
  | cons i is ih =>
    obtain ⟨⟨hno, hspend⟩, htail⟩ := h
    obtain ⟨hnext, hpaid, _⟩ := step_allowance d hs hno hspend
    obtain ⟨hlast, hrest⟩ := ih hnext htail
    simp only [run, run_cons, debited] at hlast hrest ⊢
    exact ⟨hlast, by omega⟩

/-- From an `approve` of `allowed` on, with no further approval and no negative spending,
    the spender's debits and the active allowance together never exceed `allowed`, and no
    spending call raises the active allowance. -/
theorem allowance_bound (d : Deployment) (ctx : Context) (owner spender : Address) (allowed : ℤ)
    (expirationLedger : ℕ) (s t : State) (is : List Invocation)
    (happrove : approve d ctx owner spender allowed expirationLedger s = .ok t)
    (hallowed : 0 ≤ allowed)
    (h : Along (exec d) (fun _ i => NoApproval owner spender i ∧ NonnegSpend owner spender i) t is) :
    (∀ q, debited d owner spender t is + getAllowance q owner spender (run d t is) ≤ allowed) ∧
    ∀ q i, NoApproval owner spender i → NonnegSpend owner spender i →
      i.call.spends owner spender →
      getAllowance q owner spender (step (exec d) (run d t is) i) ≤
        getAllowance q owner spender (run d t is) := by
  simp only [approve, bind_eq_ok, pure_eq_ok] at happrove
  obtain ⟨_, _, _, _, _, _, rfl⟩ := happrove
  have hstart := setAllowance_stored owner spender allowed expirationLedger s
  obtain ⟨hnonneg, hpaid⟩ := run_allowance d (by omega) h
  refine ⟨fun q => ?_, fun q i hno hspend hcall => ?_⟩
  · have hactive := (@getAllowance_bounds q owner spender _ hnonneg).2
    omega
  · exact (step_allowance d hnonneg hno hspend).2.2 q hcall

def demoFunded : State := run demoDeployment State.empty [demoCreate none, demoMint]

def demoApprove : Context := { sequence := 3, auths := [demoAlice] }

def demoApproved : State := setAllowance demoAlice demoBob 50 1000 demoFunded

def demoSpend (recipient : Address) (amount : ℤ) : Invocation :=
  { sequence := 4, auths := [demoBob], call := .transferFrom demoBob demoAlice recipient amount }

theorem allowance_bound_demo :
    debited demoDeployment demoAlice demoBob demoApproved [demoSpend demoBob 30] = 30 ∧
      30 + getAllowance 5 demoAlice demoBob
        (run demoDeployment demoApproved [demoSpend demoBob 30]) ≤ 50 := by
  have hdebited :
      debited demoDeployment demoAlice demoBob demoApproved [demoSpend demoBob 30] = 30 := by
    decide +kernel
  have hbound := (allowance_bound demoDeployment demoApprove demoAlice demoBob 50 1000 demoFunded
    demoApproved [demoSpend demoBob 30] rfl (by decide)
    ⟨⟨trivial, fun _ h => absurd h (by decide)⟩, trivial⟩).1 5
  rw [hdebited] at hbound
  exact ⟨hdebited, hbound⟩

/-- Bob transfers -25 from Alice to Alice: nothing moves and his allowance grows to 75. -/
theorem transferFrom_self_raises_allowance :
    approve demoDeployment demoApprove demoAlice demoBob 50 1000 demoFunded = .ok demoApproved ∧
      getAllowance 4 demoAlice demoBob demoApproved = 50 ∧
      getAllowance 4 demoAlice demoBob
        (run demoDeployment demoApproved [demoSpend demoAlice (-25)]) = 75 ∧
      debited demoDeployment demoAlice demoBob demoApproved [demoSpend demoAlice (-25)] = 0 := by
  refine ⟨rfl, ?_⟩
  decide +kernel

end SorobanKit.Token
