import SorobanKit.MultisigSigners

set_option autoImplicit false

/-!
# Spending limits of a wallet

Three entry points write the limit of a token. `configure_token_limit` asks for approvals
unless the list is empty, `set_token_spending_limit` asks for none and starts the counter
again, and `check_spending_limit` lets anyone book an amount against the limit. If the limits
are only ever written with approvals, the booked amounts keep to them.
-/
namespace SorobanKit.Multisig
open HostInteger HostInvocation HostRuns

/-- A day has passed since the last refill, or the ledger went back. -/
def RefillDue (sequence : ℕ) (l : TokenSpendingLimit) : Prop :=
  l.lastRefillLedger + dayLedgers ≤ sequence ∨ sequence < l.lastRefillLedger

instance (sequence : ℕ) (l : TokenSpendingLimit) : Decidable (RefillDue sequence l) :=
  inferInstanceAs (Decidable (_ ∨ _))

def refilled (sequence : ℕ) (l : TokenSpendingLimit) : TokenSpendingLimit :=
  if RefillDue sequence l then { l with spentAmount := 0, lastRefillLedger := sequence } else l

theorem refill_ok {ctx : Context} {l l' : TokenSpendingLimit} (h : refill ctx l = .ok l') :
    l' = refilled ctx.sequence l := by
  simp only [refill, bind_eq_ok, unwrap_eq_ok, checkedAddU32_eq_some] at h
  obtain ⟨_, ⟨_, rfl⟩, h⟩ := h
  unfold refilled
  by_cases hdue : RefillDue ctx.sequence l
  · rw [if_pos hdue]
    rw [if_pos (show _ ∨ _ from hdue), pure_eq_ok] at h
    exact h.symm
  · rw [if_neg hdue]
    rw [if_neg (show ¬ (_ ∨ _) from hdue), pure_eq_ok] at h
    exact h.symm

theorem refilled_dailyLimit (sequence : ℕ) (l : TokenSpendingLimit) :
    (refilled sequence l).dailyLimit = l.dailyLimit := by
  unfold refilled
  split <;> rfl

/-- The record that `configure_token_limit` writes over an existing one keeps the counter. -/
def reconfigured (sequence : ℕ) (token : Address) (dailyLimit : ℤ)
    (existing : Option TokenSpendingLimit) : TokenSpendingLimit :=
  match existing with
  | some l => ⟨token, dailyLimit, l.spentAmount, l.lastRefillLedger⟩
  | none => ⟨token, dailyLimit, 0, sequence⟩

inductive LimitMove (i : Invocation) (s t : State) : Prop where
  | untouched (hcall : ∀ token amount, i.call = .checkSpendingLimit token amount →
        s.spendingLimits token = none)
      (h : t.spendingLimits = s.spendingLimits)
  | configured (approvals : List Address) (token : Address) (dailyLimit : ℤ)
      (hcall : i.call = .configureTokenLimit approvals token dailyLimit)
      (happroved : approvals ≠ [] → Approved i.toContext approvals s)
      (hready : s.signers ≠ none) (hnonneg : 0 ≤ dailyLimit)
      (h : t.spendingLimits = Function.update s.spendingLimits token
        (some (reconfigured i.sequence token dailyLimit (s.spendingLimits token))))
  | assigned (token : Address) (dailyLimit : ℤ)
      (hcall : i.call = .setTokenSpendingLimit token dailyLimit) (hnonneg : 0 ≤ dailyLimit)
      (h : t.spendingLimits = Function.update s.spendingLimits token
        (some ⟨token, dailyLimit, 0, i.sequence⟩))
  | booked (token : Address) (amount : ℤ) (l : TokenSpendingLimit)
      (hcall : i.call = .checkSpendingLimit token amount) (hnonneg : 0 ≤ amount)
      (hlimit : s.spendingLimits token = some l)
      (hle : (refilled i.sequence l).spentAmount + amount ≤ l.dailyLimit)
      (h : t.spendingLimits = Function.update s.spendingLimits token
        (some { refilled i.sequence l with
          spentAmount := (refilled i.sequence l).spentAmount + amount }))

theorem configureTokenLimit_move {i : Invocation} {approvals : List Address} {token : Address}
    {dailyLimit : ℤ} {s t : State}
    (hcall : i.call = .configureTokenLimit approvals token dailyLimit)
    (h : configureTokenLimit i.toContext approvals token dailyLimit s = .ok t) :
    LimitMove i s t := by
  simp only [configureTokenLimit, bind_eq_ok, rejectIf_eq_ok, pure_eq_ok, not_lt] at h
  obtain ⟨_, happrovals, _, hnonneg, rfl⟩ := h
  have hguard : (approvals ≠ [] → Approved i.toContext approvals s) ∧ s.signers ≠ none := by
    unfold requireLimitApprovals at happrovals
    split at happrovals
    · next hempty =>
      simp only [getRequiredSigners, bind_eq_ok, okOr_eq_ok] at happrovals
      obtain ⟨signers, hsigners, _⟩ := happrovals
      exact ⟨fun hne => absurd (List.isEmpty_iff.mp hempty) hne, by simp [hsigners]⟩
    · have happroved := requireThresholdApprovals_eq_ok.mp happrovals
      obtain ⟨signers, hsigners, _⟩ := happroved.members
      exact ⟨fun _ => happroved, by simp [hsigners]⟩
  refine .configured approvals token dailyLimit hcall hguard.1 hguard.2 hnonneg ?_
  cases s.spendingLimits token <;> rfl

theorem checkSpendingLimit_move {i : Invocation} {token : Address} {amount : ℤ} {s t : State}
    (hcall : i.call = .checkSpendingLimit token amount)
    (h : checkSpendingLimit i.toContext token amount s = .ok t) : LimitMove i s t := by
  simp only [checkSpendingLimit, bind_eq_ok, rejectIf_eq_ok, not_lt] at h
  obtain ⟨_, hnonneg, h⟩ := h
  cases hlimit : s.spendingLimits token with
  | none =>
    simp only [hlimit, pure_eq_ok] at h
    subst h
    refine .untouched (fun other _ hother => ?_) rfl
    rw [hcall] at hother
    cases hother
    exact hlimit
  | some l =>
    simp only [hlimit, bind_eq_ok, unwrap_eq_ok, checkedAdd_eq_some, rejectIf_eq_ok, pure_eq_ok,
      not_lt] at h
    obtain ⟨l', hrefill, _, ⟨_, rfl⟩, _, hle, rfl⟩ := h
    have hl' := refill_ok hrefill
    subst hl'
    rw [refilled_dailyLimit] at hle
    exact .booked token amount l hcall hnonneg hlimit hle rfl

theorem exec_limitMove {i : Invocation} {s t : State} (h : exec i s = .ok t) : LimitMove i s t := by
  by_cases hkind : i.call.kind = .limit
  · unfold exec at h
    cases hcall : i.call <;> simp only [hcall] at h
    case configureTokenLimit => exact configureTokenLimit_move hcall h
    case setTokenSpendingLimit token dailyLimit =>
      simp only [setTokenSpendingLimit, bind_eq_ok, rejectIf_eq_ok, pure_eq_ok, not_lt] at h
      obtain ⟨_, hnonneg, rfl⟩ := h
      exact .assigned token dailyLimit hcall hnonneg rfl
    case checkSpendingLimit => exact checkSpendingLimit_move hcall h
    all_goals
      rw [hcall] at hkind
      cases hkind
  · have hcheck : ∀ token amount, i.call = .checkSpendingLimit token amount →
        s.spendingLimits token = none := by
      intro token amount hcall
      rw [hcall] at hkind
      exact absurd rfl hkind
    refine .untouched hcheck ?_
    cases exec_move h with
    | limited hlimit _ => exact absurd hlimit hkind
    | executed _ _ h => rw [h.effect]
    | configured _ _ _ _ _ _ _ _ _ _ _ h | joined _ _ _ _ _ _ _ _ _ _ h
      | left _ _ _ _ _ _ _ _ _ _ _ _ h | proposed _ _ _ _ _ _ _ _ _ _ _ _ h
      | signed _ _ _ _ _ _ _ _ _ _ _ _ _ h | cleaned _ _ _ _ _ h => rw [h]

/-- No limit is written without approvals: `set_token_spending_limit` never passes, and
    `configure_token_limit` passes only with an approval list. -/
def Guarded (s : State) (i : Invocation) : Prop :=
  match i.call with
  | .setTokenSpendingLimit _ dailyLimit => dailyLimit < 0
  | .configureTokenLimit approvals _ dailyLimit =>
    approvals = [] → s.signers = none ∨ dailyLimit < 0
  | _ => True

/-- The call books an amount on a token that has a limit. It asks for no approvals. -/
def Spends (s : State) (i : Invocation) : Prop :=
  match i.call with
  | .checkSpendingLimit token amount => 0 < amount ∧ s.spendingLimits token ≠ none
  | _ => False

/-- What may change the limit of a token: an approved call, or the refill of a day. -/
inductive LimitChange (e : Entry State Invocation) (token : Address) : Prop where
  | approved (approvals : List Address) (dailyLimit : ℤ)
      (hcall : e.invocation.call = .configureTokenLimit approvals token dailyLimit)
      (h : Approved e.invocation.toContext approvals e.before)
  | refilled (amount : ℤ) (l : TokenSpendingLimit)
      (hcall : e.invocation.call = .checkSpendingLimit token amount)
      (hbefore : e.before.spendingLimits token = some l)
      (hdue : RefillDue e.invocation.sequence l)
      (hafter : e.after.spendingLimits token =
        some { l with spentAmount := 0, lastRefillLedger := e.invocation.sequence })

/-- The amount accepted for a limited token since its last refill, one more call later. -/
def accept (token : Address) (total : ℤ) (e : Entry State Invocation) : ℤ :=
  match e.invocation.call with
  | .checkSpendingLimit checked amount =>
    if checked = token then
      match e.before.spendingLimits token with
      | some l => if RefillDue e.invocation.sequence l then amount else total + amount
      | none => total
    else total
  | _ => total

def acceptedSinceRefill (token : Address) (past : List (Entry State Invocation)) : ℤ :=
  past.foldl (accept token) 0

/-- What is booked against the limit of a token, if it has one. -/
def booked (s : State) (token : Address) : ℤ :=
  ((s.spendingLimits token).map TokenSpendingLimit.spentAmount).getD 0

theorem booked_refilled {sequence : ℕ} {l : TokenSpendingLimit} (amount : ℤ) :
    (refilled sequence l).spentAmount + amount =
      if RefillDue sequence l then amount else l.spentAmount + amount := by
  unfold refilled
  split
  · exact zero_add amount
  · rfl

theorem accept_of_booked {e : Entry State Invocation} {token : Address} {amount : ℤ}
    {l : TokenSpendingLimit} (hcall : e.invocation.call = .checkSpendingLimit token amount)
    (hlimit : e.before.spendingLimits token = some l) :
    accept token (booked e.before token) e =
      (refilled e.invocation.sequence l).spentAmount + amount := by
  simp only [accept, hcall, hlimit, if_true, booked_refilled, booked, Option.map_some,
    Option.getD_some]

/-- Every call counts an amount exactly when it books it. -/
theorem booked_step {i : Invocation} {s t : State} (hi : Guarded s i) (h : exec i s = .ok t)
    (token : Address) : booked t token = accept token (booked s token) ⟨s, i, t⟩ := by
  cases exec_limitMove h with
  | untouched hcall h =>
    have hsame : booked t token = booked s token := by
      unfold booked
      rw [h]
    rw [hsame]
    unfold accept
    split
    · next checked amount hchecked =>
      split
      · next heq =>
        rw [← heq]
        simp only [hcall checked amount hchecked]
      · rfl
    · rfl
  | configured _ other dailyLimit hcall _ _ _ h =>
    simp only [accept, hcall]
    unfold booked
    rw [h]
    by_cases htoken : token = other
    · subst htoken
      rw [Function.update_self]
      cases s.spendingLimits token <;> rfl
    · rw [Function.update_of_ne htoken]
  | assigned _ dailyLimit hcall hnonneg _ =>
    unfold Guarded at hi
    rw [hcall] at hi
    exact absurd hnonneg (not_le.mpr hi)
  | booked other amount l hcall _ hlimit _ h =>
    by_cases htoken : token = other
    · subst htoken
      rw [accept_of_booked (e := ⟨s, i, t⟩) hcall hlimit, Multisig.booked, h,
        Function.update_self]
      rfl
    · simp only [accept, hcall, Ne.symm htoken, if_false]
      unfold Multisig.booked
      rw [h, Function.update_of_ne htoken]

theorem refilled_of_not_due {sequence : ℕ} {l : TokenSpendingLimit} (h : ¬ RefillDue sequence l) :
    refilled sequence l = l := if_neg h

theorem refilled_of_due {sequence : ℕ} {l : TokenSpendingLimit} (h : RefillDue sequence l) :
    refilled sequence l = { l with spentAmount := 0, lastRefillLedger := sequence } := if_pos h

theorem limitChange_step {i : Invocation} {s t : State} (hi : Guarded s i) (h : exec i s = .ok t)
    (hspends : ¬ Spends s i) {token : Address}
    (hchange : t.spendingLimits token ≠ s.spendingLimits token) : LimitChange ⟨s, i, t⟩ token := by
  have hsame : ∀ {other : Address} {entry : Option TokenSpendingLimit},
      t.spendingLimits = Function.update s.spendingLimits other entry → token = other := by
    intro other entry h
    by_contra htoken
    rw [h, Function.update_of_ne htoken] at hchange
    exact hchange rfl
  cases exec_limitMove h with
  | untouched _ h =>
    rw [h] at hchange
    exact absurd rfl hchange
  | configured approvals other dailyLimit hcall happroved hready hnonneg h =>
    cases hsame h
    refine .approved approvals dailyLimit hcall (happroved fun hempty => ?_)
    unfold Guarded at hi
    rw [hcall] at hi
    rcases hi hempty with hnone | hneg
    · exact hready hnone
    · exact absurd hnonneg (not_le.mpr hneg)
  | assigned _ dailyLimit hcall hnonneg _ =>
    unfold Guarded at hi
    rw [hcall] at hi
    exact absurd hnonneg (not_le.mpr hi)
  | booked other amount l hcall hnonneg hlimit _ h =>
    cases hsame h
    have hzero : amount = 0 := by
      simp only [Spends, hcall, hlimit] at hspends
      by_contra hne
      exact hspends ⟨by omega, Option.some_ne_none l⟩
    subst hzero
    rw [h, Function.update_self, hlimit, add_zero] at hchange
    by_cases hdue : RefillDue i.sequence l
    · refine .refilled 0 l hcall hlimit hdue ?_
      simp only [h, Function.update_self, add_zero, refilled_of_due hdue]
    · rw [refilled_of_not_due hdue] at hchange
      exact absurd rfl hchange

theorem spends_changes {i : Invocation} {s t : State} (h : exec i s = .ok t) (hspends : Spends s i) :
    ∃ token, t.spendingLimits token ≠ s.spendingLimits token ∧ ¬ LimitChange ⟨s, i, t⟩ token := by
  unfold Spends at hspends
  split at hspends
  · next token amount hcall =>
    obtain ⟨hpos, hsome⟩ := hspends
    cases exec_limitMove h with
    | untouched hnone _ => exact absurd (hnone token amount hcall) hsome
    | booked other amount' l hcall' _ hlimit _ h =>
      rw [hcall] at hcall'
      cases hcall'
      have hafter : t.spendingLimits token = some { refilled i.sequence l with
          spentAmount := (refilled i.sequence l).spentAmount + amount } := by
        rw [h, Function.update_self]
      refine ⟨token, fun hsame => ?_, fun hchange => ?_⟩
      · rw [hafter, hlimit, Option.some.injEq] at hsame
        by_cases hdue : RefillDue i.sequence l
        · rw [refilled_of_due hdue] at hsame
          have hledger : i.sequence = l.lastRefillLedger :=
            congrArg TokenSpendingLimit.lastRefillLedger hsame
          unfold RefillDue dayLedgers at hdue
          omega
        · rw [refilled_of_not_due hdue] at hsame
          have hspent : l.spentAmount + amount = l.spentAmount :=
            congrArg TokenSpendingLimit.spentAmount hsame
          omega
      · cases hchange with
        | approved _ _ hcall' _ =>
          rw [hcall] at hcall'
          cases hcall'
        | refilled _ l' _ hbefore hdue hrefill =>
          cases hlimit.symm.trans hbefore
          have hspent := hafter.symm.trans hrefill
          rw [Option.some.injEq, refilled_of_due hdue] at hspent
          have hzero : 0 + amount = 0 := congrArg TokenSpendingLimit.spentAmount hspent
          omega
    | configured _ _ _ hcall' _ _ _ _ | assigned _ _ hcall' _ _ =>
      rw [hcall] at hcall'
      cases hcall'
  · exact hspends.elim

/-- If nothing but approved calls writes the limits, the amounts accepted since the last refill
    stay within the limit in force, and a limit or its counter changes only by an approved call
    or a refill, exactly if the call books nothing itself. -/
theorem spending_limits (is : List Invocation) (h : Along exec Guarded State.empty is)
    (past later : List (Entry State Invocation)) (e : Entry State Invocation)
    (hsplit : history exec State.empty is = past ++ e :: later) :
    ((∀ token, e.after.spendingLimits token ≠ e.before.spendingLimits token →
      LimitChange e token) ↔ ¬ Spends e.before e.invocation) ∧
    (∀ token amount l, e.invocation.call = .checkSpendingLimit token amount →
      e.before.spendingLimits token = some l →
      acceptedSinceRefill token (past ++ [e]) ≤ l.dailyLimit) := by
  obtain ⟨hbooked, hguarded, hexec⟩ := history_split
    (I := fun past s => ∀ token, booked s token = acceptedSinceRefill token past)
    (fun past s i t hs hi hok token => by
      rw [booked_step hi hok token, hs token, acceptedSinceRefill, acceptedSinceRefill,
        List.foldl_append]
      rfl) (fun _ => rfl) h hsplit
  refine ⟨⟨fun hlawful hspends => ?_, fun hspends token hchange =>
    limitChange_step hguarded hexec hspends hchange⟩, fun token amount l hcall hlimit => ?_⟩
  · obtain ⟨token, hchange, hunlawful⟩ := spends_changes hexec hspends
    exact hunlawful (hlawful token hchange)
  have htotal : acceptedSinceRefill token (past ++ [e]) =
      (refilled e.invocation.sequence l).spentAmount + amount := by
    rw [← accept_of_booked hcall hlimit, hbooked token, acceptedSinceRefill, acceptedSinceRefill,
      List.foldl_append]
    rfl
  rw [htotal]
  cases exec_limitMove hexec with
  | untouched hnone _ =>
    rw [hnone token amount hcall] at hlimit
    cases hlimit
  | booked other amount' l' hcall' _ hlimit' hle _ =>
    rw [hcall] at hcall'
    cases hcall'
    rw [hlimit] at hlimit'
    cases hlimit'
    exact hle
  | configured _ _ _ hcall' _ _ _ _ | assigned _ _ hcall' _ _ =>
    rw [hcall] at hcall'
    cases hcall'

def demoAsset : Address := ⟨7⟩

def demoLimit : Invocation := ⟨demoEnv, .configureTokenLimit demoOwners demoAsset 100⟩

def demoSpend : Invocation := ⟨demoEnv, .checkSpendingLimit demoAsset 100⟩

theorem spending_limits_demo :
    acceptedSinceRefill demoAsset [⟨State.empty, demoSetup, run State.empty [demoSetup]⟩,
      ⟨run State.empty [demoSetup], demoLimit, run State.empty [demoSetup, demoLimit]⟩,
      ⟨run State.empty [demoSetup, demoLimit], demoSpend,
        run State.empty [demoSetup, demoLimit, demoSpend]⟩] ≤ 100 := by
  have happroved : demoOwners = [] → (run State.empty [demoSetup]).signers = none ∨ (100 : ℤ) < 0 := by
    intro hempty
    cases hempty
  exact (spending_limits [demoSetup, demoLimit, demoSpend] ⟨trivial, ⟨happroved, ⟨trivial, trivial⟩⟩⟩
    [⟨State.empty, demoSetup, run State.empty [demoSetup]⟩,
      ⟨run State.empty [demoSetup], demoLimit, run State.empty [demoSetup, demoLimit]⟩] [] _ rfl).2
    demoAsset 100 ⟨demoAsset, 100, 0, 10⟩ rfl rfl

def demoStranger : Env := { demoEnv with auths := [] }

def demoOverwrite : Invocation := ⟨demoStranger, .setTokenSpendingLimit demoAsset 100⟩

def demoIntrude : Invocation := ⟨demoStranger, .checkSpendingLimit demoAsset 100⟩

/-- Anyone may start the counter of a limited token again, and the limit is spent twice
    within one day. Anyone may also raise the counter and use up the limit. -/
theorem limit_overwritten_by_anyone :
    (∃ e ∈ history exec State.empty [demoSetup, demoLimit, demoSpend, demoOverwrite],
      e.invocation.auths = [] ∧
      e.after.spendingLimits demoAsset ≠ e.before.spendingLimits demoAsset ∧
      ¬ LimitChange e demoAsset) ∧
    acceptedSinceRefill demoAsset (history exec State.empty
      [demoSetup, demoLimit, demoSpend, demoOverwrite, demoSpend]) = 200 ∧
    (∃ e ∈ history exec State.empty [demoSetup, demoLimit, demoIntrude],
      e.invocation.auths = [] ∧
      e.after.spendingLimits demoAsset ≠ e.before.spendingLimits demoAsset ∧
      ¬ LimitChange e demoAsset) := by
  refine ⟨⟨⟨run State.empty [demoSetup, demoLimit, demoSpend], demoOverwrite,
      run State.empty [demoSetup, demoLimit, demoSpend, demoOverwrite]⟩,
    List.mem_of_getElem? (i := 3) rfl, rfl, fun heq => ?_, fun hchange => ?_⟩, by decide +kernel,
    ⟨⟨run State.empty [demoSetup, demoLimit], demoIntrude,
      run State.empty [demoSetup, demoLimit, demoIntrude]⟩,
    List.mem_of_getElem? (i := 2) rfl, rfl, fun heq => ?_, fun hchange => ?_⟩⟩
  · have hspent : (some 0 : Option ℤ) = some 100 :=
      congrArg (Option.map TokenSpendingLimit.spentAmount) heq
    exact absurd hspent (by decide)
  · cases hchange with
    | approved _ _ hcall _ => cases hcall
    | refilled _ _ hcall _ _ _ => cases hcall
  · have hspent : (some 100 : Option ℤ) = some 0 :=
      congrArg (Option.map TokenSpendingLimit.spentAmount) heq
    exact absurd hspent (by decide)
  · cases hchange with
    | approved _ _ hcall _ => cases hcall
    | refilled _ _ _ _ _ hafter =>
      have hspent : (some 100 : Option ℤ) = some 0 :=
        congrArg (Option.map TokenSpendingLimit.spentAmount) hafter
      exact absurd hspent (by decide)

end SorobanKit.Multisig
