import SorobanKit.WrappedTokenMoves

set_option autoImplicit false

/-!
# Limits on mixed paths

Single amounts are checked against the minimum, the rate limit and the oracle, and mint what
arrived. Batches are checked against none of them, so the limits hold in a run only as far as its
batches keep to them.
-/
namespace SorobanKit.WrappedToken
open CommonMath HostBalances HostInteger HostInvocation HostTransfers
open HostRuns (Entry history run_invariant history_invariant_along history_split history_mem along_true
  along_of_history Along)

variable {house user underlying : Address} {env : Env} {s t : State} {amount : ℤ}
  {recipients : List (Address × ℤ)}

structure WrappedOne (house : Address) (env : Env) (user underlying : Address) (amount : ℤ)
    (s t : State) : Prop where
  signed : user ∈ env.auths
  minimum : ∀ min ∈ s.minAmount, min ≤ amount
  oracle : ∀ oracle ∈ s.porOracle, ∃ reserve ∈ env.getReserve oracle, t.totalWrapped.getD 0 ≤ reserve
  total_eq : t.totalWrapped = some (s.totalWrapped.getD 0 + (t.reserve - s.reserve))
  result : ∃ counted holdings total, t =
    { moved house env [⟨.deposit, underlying, user, house, amount⟩] s with
      wrappedByAddress := counted, holdings := holdings, totalWrapped := total }

theorem checkAmount_ok (h : checkAmount amount s = .ok ()) :
    0 < amount ∧ ∀ min ∈ s.minAmount, min ≤ amount := by
  simp only [checkAmount, bind_eq_ok, rejectIf_eq_ok, not_exists, not_and, not_lt, not_le] at h
  exact ⟨h.choose_spec.1, h.choose_spec.2⟩

theorem checkOracle_ok {newTotal : ℤ} (h : checkOracle env newTotal s = .ok ()) :
    ∀ oracle ∈ s.porOracle, ∃ reserve ∈ env.getReserve oracle, newTotal ≤ reserve := by
  intro oracle horacle
  rw [Option.mem_def] at horacle
  simp only [checkOracle, horacle, bind_eq_ok, unwrap_eq_ok, rejectIf_eq_ok, not_lt] at h
  exact h

theorem wrap_ok (h : wrap house env user amount s = .ok t) :
    ∃ underlying, WrappedOne house env user underlying amount s t := by
  simp only [wrap, loadTokens, bind_eq_ok, rejectIf_eq_ok, requireAuth_eq_ok, okOr_eq_ok, pure_eq_ok,
    callTransfer_eq_ok, checkedSub_eq_some, checkedAdd_eq_some] at h
  obtain ⟨_, _, _, _, _, hamount, _, hauth, ⟨_, underlying⟩, ⟨_, _, _, _, heq⟩, _, ⟨_, rfl⟩, _, ⟨_, rfl⟩,
    _, _, s₁, hcount, _, ⟨_, rfl⟩, _, horacle, hmint⟩ := h
  cases heq
  obtain ⟨counted, rfl⟩ := countWrapped_ok hcount
  simp only [mint, bind_eq_ok, pure_eq_ok] at hmint
  obtain ⟨_, _, rfl⟩ := hmint
  exact ⟨underlying, hauth, (checkAmount_ok hamount).2, checkOracle_ok horacle, rfl, _, _, _, rfl⟩

/-- The window of a rate limit after one more unwrap. -/
def usageAfter (window now : ℕ) (usage : Option (ℕ × ℤ)) (gross : ℤ) : ℕ × ℤ :=
  let (start, used) := openWindow window now 0 (usage.getD (now, 0))
  (start, used + gross)

structure UnwrappedOne (house : Address) (env : Env) (user underlying : Address) (amount : ℤ)
    (s t : State) : Prop where
  signed : user ∈ env.auths
  positive : 0 < amount
  minimum : ∀ min ∈ s.minAmount, min ≤ amount
  rated : s.unwrapRateLimitPaused.getD false = false → ∀ limit ∈ s.unwrapRateLimit,
    t.unwrapRateUsage = some (usageAfter (rateWindow s) env.sequence s.unwrapRateUsage amount) ∧
    (usageAfter (rateWindow s) env.sequence s.unwrapRateUsage amount).2 ≤ limit
  total_eq : t.totalWrapped = some (s.totalWrapped.getD 0 - amount)
  result : ∃ counted usage calls holdings total, t =
    { moved house env [⟨.payout, underlying, house, user, amount⟩] s with
      wrappedByAddress := counted, unwrapRateUsage := usage, unwrapCalls := calls
      holdings := holdings, totalWrapped := total }

theorem enforceUnwrapRateLimit_ok (h : enforceUnwrapRateLimit env amount s = .ok t) :
    (∃ usage calls, t = { s with unwrapRateUsage := usage, unwrapCalls := calls }) ∧
    (s.unwrapRateLimitPaused.getD false = false → ∀ limit ∈ s.unwrapRateLimit,
      t.unwrapRateUsage = some (usageAfter (rateWindow s) env.sequence s.unwrapRateUsage amount) ∧
      (usageAfter (rateWindow s) env.sequence s.unwrapRateUsage amount).2 ≤ limit) := by
  unfold enforceUnwrapRateLimit at h
  split at h
  · next hpaused =>
    rw [pure_eq_ok] at h
    subst h
    exact ⟨⟨_, _, rfl⟩, fun hopen => absurd (hpaused.symm.trans hopen) (by decide)⟩
  · split at h
    · next hnone =>
      rw [pure_eq_ok] at h
      subst h
      exact ⟨⟨_, _, rfl⟩, fun _ limit hlimit => by
        rw [hnone] at hlimit
        cases hlimit⟩
    · next limit hlimit =>
      simp only [bind_eq_ok, okOr_eq_ok, checkedAdd_eq_some, rejectIf_eq_ok, pure_eq_ok, not_lt] at h
      obtain ⟨_, ⟨_, rfl⟩, _, hle, calls, _, rfl⟩ := h
      refine ⟨⟨_, _, rfl⟩, fun _ other hother => ?_⟩
      rw [hlimit] at hother
      cases hother
      exact ⟨rfl, hle⟩

theorem freeQuota_eq (user : Address) (amount : ℤ) (s : State) :
    ∃ counted, freeQuota user amount s = { s with wrappedByAddress := counted } := by
  unfold freeQuota
  split
  · exact ⟨_, rfl⟩
  · exact ⟨s.wrappedByAddress, rfl⟩

theorem unwrap_ok (h : unwrap house env user amount s = .ok t) :
    ∃ underlying, UnwrappedOne house env user underlying amount s t := by
  simp only [unwrap, loadTokens, burn, bind_eq_ok, rejectIf_eq_ok, requireAuth_eq_ok, okOr_eq_ok,
    pure_eq_ok, callTransfer_eq_ok, checkedSub_eq_some] at h
  obtain ⟨_, _, _, _, _, hamount, _, hauth, s₁, hrate, ⟨_, underlying⟩, ⟨_, _, _, _, heq⟩, _, _, _,
    ⟨_, rfl⟩, _, _, _, ⟨_, _, _, _, rfl⟩, _, rfl⟩ := h
  cases heq
  obtain ⟨⟨usage, calls, rfl⟩, hrated⟩ := enforceUnwrapRateLimit_ok hrate
  obtain ⟨hpositive, hminimum⟩ := checkAmount_ok hamount
  obtain ⟨counted, hquota⟩ :=
    freeQuota_eq user amount { s with unwrapRateUsage := usage, unwrapCalls := calls }
  rw [hquota]
  exact ⟨underlying, hauth, hpositive, hminimum, hrated, rfl, _, _, _, _, _, rfl⟩

/-- Configured limits, which no wrap or unwrap touches. -/
structure Limits where
  minAmount : Option ℤ
  porOracle : Option Address
  unwrapRateLimit : Option ℤ
  unwrapRateWindow : Option ℕ
  unwrapRateLimitPaused : Option Bool
  deriving DecidableEq, Repr

def State.limits (s : State) : Limits :=
  ⟨s.minAmount, s.porOracle, s.unwrapRateLimit, s.unwrapRateWindow, s.unwrapRateLimitPaused⟩

theorem execMixed_limits {i : Invocation house MixedCall} (h : execMixed i s = .ok t) :
    t.limits = s.limits := by
  unfold execMixed at h
  cases hcall : i.call with
  | wrap user amount =>
    rw [hcall] at h
    obtain ⟨_, h⟩ := wrap_ok h
    obtain ⟨_, _, _, rfl⟩ := h.result
    rfl
  | wrapBatch user recipients =>
    rw [hcall] at h
    obtain ⟨_, h⟩ := doWrap_ok h
    obtain ⟨_, rfl⟩ := h.result
    rfl
  | unwrap user amount =>
    rw [hcall] at h
    obtain ⟨_, h⟩ := unwrap_ok h
    obtain ⟨_, _, _, _, _, rfl⟩ := h.result
    rfl
  | unwrapBatch user recipients =>
    rw [hcall] at h
    obtain ⟨_, h⟩ := doUnwrap_ok h
    rw [h.result]
    rfl

/-- The amounts that a call asks for. -/
def MixedCall.amounts : MixedCall → List ℤ
  | .wrap _ amount => [amount]
  | .wrapBatch _ recipients => recipients.map Prod.snd
  | .unwrap _ amount => [amount]
  | .unwrapBatch _ recipients => recipients.map Prod.snd

def MixedCall.unwraps : MixedCall → Bool
  | .wrap _ _ => false
  | .wrapBatch _ _ => false
  | .unwrap _ _ => true
  | .unwrapBatch _ _ => true

/-- The gross amounts of a history of unwraps, in the window that is open at its end. -/
def windowUsage (window : ℕ) (past : List (Entry State (Invocation house MixedCall))) :
    Option (ℕ × ℤ) :=
  past.foldl (fun usage e =>
    if e.invocation.call.unwraps then
      some (usageAfter window e.invocation.sequence usage e.invocation.call.amounts.sum)
    else usage) none

theorem windowUsage_append (window : ℕ) (past : List (Entry State (Invocation house MixedCall)))
    (e : Entry State (Invocation house MixedCall)) :
    windowUsage window (past ++ [e]) = if e.invocation.call.unwraps then
      some (usageAfter window e.invocation.sequence (windowUsage window past)
        e.invocation.call.amounts.sum)
      else windowUsage window past := by
  unfold windowUsage
  rw [List.foldl_append, List.foldl_cons, List.foldl_nil]

/-- No amount is below the minimum, the oracle's answer covers what is wrapped, and all of the
    deposit arrives. -/
def WrapKeeps (house : Address) (env : Env) (user : Address) (recipients : List (Address × ℤ))
    (s : State) : Prop :=
  (∀ min ∈ s.minAmount, ∀ r ∈ recipients, min ≤ r.2) ∧
  (∀ oracle ∈ s.porOracle, ∃ reserve ∈ env.getReserve oracle,
    s.totalWrapped.getD 0 + netTotal s.wrapFeeBps recipients ≤ reserve) ∧
  ∀ underlying ∈ s.underlyingToken, netTotal s.wrapFeeBps recipients ≤ env.delivers s.transfers
    ⟨.deposit, underlying, user, house, netTotal s.wrapFeeBps recipients⟩

/-- No amount is below the minimum, and there is no rate limit. -/
def UnwrapKeeps (recipients : List (Address × ℤ)) (s : State) : Prop :=
  (∀ min ∈ s.minAmount, ∀ r ∈ recipients, min ≤ r.2) ∧ s.unwrapRateLimit = none

instance : Decidable (WrapKeeps house env user recipients s) :=
  inferInstanceAs (Decidable (_ ∧ _ ∧ _))

instance : Decidable (UnwrapKeeps recipients s) := inferInstanceAs (Decidable (_ ∧ _))

/-- A batch keeps to the limits by itself. -/
def KeepsLimits (i : Invocation house MixedCall) (s : State) : Prop :=
  match i.call with
  | .wrapBatch user recipients => WrapKeeps house i.toEnv user recipients s
  | .unwrapBatch _ recipients => UnwrapKeeps recipients s
  | _ => True

instance (i : Invocation house MixedCall) (s : State) : Decidable (KeepsLimits i s) :=
  match hcall : i.call with
  | .wrap _ _ => isTrue (by simp only [KeepsLimits, hcall])
  | .wrapBatch user recipients =>
    decidable_of_iff (WrapKeeps house i.toEnv user recipients s) (by simp only [KeepsLimits, hcall])
  | .unwrap _ _ => isTrue (by simp only [KeepsLimits, hcall])
  | .unwrapBatch _ recipients =>
    decidable_of_iff (UnwrapKeeps recipients s) (by simp only [KeepsLimits, hcall])

/-- The contract keeps at least what an unwrap leaves of the reserve. -/
theorem UnwrappedOne.reserve_le (h : UnwrappedOne house env user underlying amount s t) :
    s.reserve - amount ≤ t.reserve := by
  obtain ⟨_, _, _, _, _, rfl⟩ := h.result
  dsimp only [moved, settle]
  rw [if_pos rfl]
  split <;> omega

/-- What a call that keeps to the limits leaves of them. -/
structure LimitedStep (e : Entry State (Invocation house MixedCall)) : Prop where
  minimum : ∀ min ∈ e.before.minAmount, ∀ amount ∈ e.invocation.call.amounts, min ≤ amount
  oracle : e.invocation.call.unwraps = false → ∀ oracle ∈ e.before.porOracle,
    ∃ reserve ∈ e.invocation.getReserve oracle, e.after.totalWrapped.getD 0 ≤ reserve
  rated : e.before.unwrapRateLimitPaused.getD false = false → ∀ limit ∈ e.before.unwrapRateLimit,
    if e.invocation.call.unwraps then
      e.after.unwrapRateUsage = some (usageAfter (rateWindow e.before) e.invocation.sequence
        e.before.unwrapRateUsage e.invocation.call.amounts.sum) ∧
      (usageAfter (rateWindow e.before) e.invocation.sequence e.before.unwrapRateUsage
        e.invocation.call.amounts.sum).2 ≤ limit
    else e.after.unwrapRateUsage = e.before.unwrapRateUsage
  backed : e.before.totalWrapped.getD 0 ≤ e.before.reserve →
    e.after.totalWrapped.getD 0 ≤ e.after.reserve

theorem wrap_limited {e : Entry State (Invocation house MixedCall)}
    (hcall : e.invocation.call = .wrap user amount)
    (h : WrappedOne house e.invocation.toEnv user underlying amount e.before e.after) :
    LimitedStep e where
  minimum min hmin amount hamount := by
    rw [hcall] at hamount
    obtain rfl := List.mem_singleton.mp hamount
    exact h.minimum min hmin
  oracle _ := h.oracle
  rated _ limit _ := by
    obtain ⟨_, _, _, hafter⟩ := h.result
    rw [hcall, hafter]
    exact rfl
  backed hbacked := by
    rw [h.total_eq, Option.getD_some]
    omega

theorem wrapBatch_limited {e : Entry State (Invocation house MixedCall)}
    (hcall : e.invocation.call = .wrapBatch user recipients)
    (hkeeps : KeepsLimits e.invocation e.before)
    (h : WrappedAll house e.invocation.toEnv user underlying recipients e.before e.after) :
    LimitedStep e := by
  unfold KeepsLimits at hkeeps
  rw [hcall] at hkeeps
  obtain ⟨hminimum, horacle, hdelivered⟩ := hkeeps
  have huser : user ≠ house := fun heq => e.invocation.outside (heq ▸ h.signed)
  have harrived := h.reserve_le huser
  have hall := hdelivered underlying h.loaded
  obtain ⟨_, hafter⟩ := h.result
  have htotal : e.after.totalWrapped.getD 0 =
      e.before.totalWrapped.getD 0 + netTotal e.before.wrapFeeBps recipients := by
    rw [hafter]
    exact rfl
  exact {
    minimum := fun min hmin amount hamount => by
      rw [hcall] at hamount
      obtain ⟨r, hr, rfl⟩ := List.mem_map.mp hamount
      exact hminimum min hmin r hr
    oracle := fun _ => by
      rw [htotal]
      exact horacle
    rated := fun _ limit _ => by
      rw [hcall, hafter]
      exact rfl
    backed := fun hbacked => by omega }

theorem unwrap_limited {e : Entry State (Invocation house MixedCall)}
    (hcall : e.invocation.call = .unwrap user amount)
    (h : UnwrappedOne house e.invocation.toEnv user underlying amount e.before e.after) :
    LimitedStep e where
  minimum min hmin amount hamount := by
    rw [hcall] at hamount
    obtain rfl := List.mem_singleton.mp hamount
    exact h.minimum min hmin
  oracle hwraps := by
    rw [hcall] at hwraps
    cases hwraps
  rated hopen limit hlimit := by
    have hsum : e.invocation.call.amounts.sum = amount := by
      rw [hcall]
      exact List.sum_singleton
    rw [hsum, hcall]
    exact h.rated hopen limit hlimit
  backed hbacked := by
    have hleft := h.reserve_le
    rw [h.total_eq, Option.getD_some]
    omega

theorem unwrapBatch_limited {e : Entry State (Invocation house MixedCall)}
    (hcall : e.invocation.call = .unwrapBatch user recipients)
    (hkeeps : KeepsLimits e.invocation e.before)
    (h : UnwrappedAll house e.invocation.toEnv user underlying recipients e.before e.after) :
    LimitedStep e := by
  unfold KeepsLimits at hkeeps
  rw [hcall] at hkeeps
  obtain ⟨hminimum, hunlimited⟩ := hkeeps
  exact {
    minimum := fun min hmin amount hamount => by
      rw [hcall] at hamount
      obtain ⟨r, hr, rfl⟩ := List.mem_map.mp hamount
      exact hminimum min hmin r hr
    oracle := fun hwraps => by
      rw [hcall] at hwraps
      cases hwraps
    rated := fun _ limit hlimit => by
      rw [hunlimited] at hlimit
      cases hlimit
    backed := fun hbacked => by
      have hleft := h.reserve_le
      have htotal : e.after.totalWrapped.getD 0 =
          e.before.totalWrapped.getD 0 - grossTotal recipients := by
        rw [h.result]
        exact rfl
      omega }

theorem execMixed_limited {e : Entry State (Invocation house MixedCall)}
    (hkeeps : KeepsLimits e.invocation e.before)
    (h : execMixed e.invocation e.before = .ok e.after) : LimitedStep e := by
  unfold execMixed at h
  cases hcall : e.invocation.call with
  | wrap user amount =>
    rw [hcall] at h
    obtain ⟨_, h⟩ := wrap_ok h
    exact wrap_limited hcall h
  | wrapBatch user recipients =>
    rw [hcall] at h
    obtain ⟨_, h⟩ := doWrap_ok h
    exact wrapBatch_limited hcall hkeeps h
  | unwrap user amount =>
    rw [hcall] at h
    obtain ⟨_, h⟩ := unwrap_ok h
    exact unwrap_limited hcall h
  | unwrapBatch user recipients =>
    rw [hcall] at h
    obtain ⟨_, h⟩ := doUnwrap_ok h
    exact unwrapBatch_limited hcall hkeeps h

/-- What the limits configured in `s` promise of a run from there. -/
structure LimitsHold (s : State) (is : List (Invocation house MixedCall)) : Prop where
  rate : ∀ limit ∈ s.unwrapRateLimit, ∀ past, past <+: history execMixed s is →
    ∀ w ∈ windowUsage (rateWindow s) past, w.2 ≤ limit
  oracle : ∀ e ∈ history execMixed s is, e.invocation.call.unwraps = false →
    ∀ oracle ∈ s.porOracle, ∃ reserve ∈ e.invocation.getReserve oracle,
      e.after.totalWrapped.getD 0 ≤ reserve
  minimum : ∀ e ∈ history execMixed s is, ∀ min ∈ s.minAmount,
    ∀ amount ∈ e.invocation.call.amounts, min ≤ amount
  backed : ∀ e ∈ history execMixed s is, e.after.totalWrapped.getD 0 ≤ e.after.reserve

/-- The state of a run whose calls keep to the limits. -/
structure Within (start : State) (past : List (Entry State (Invocation house MixedCall)))
    (s : State) : Prop where
  limits_eq : s.limits = start.limits
  usage_eq : start.unwrapRateLimit.isSome →
    windowUsage (rateWindow start) past = s.unwrapRateUsage
  usage_le : ∀ limit ∈ start.unwrapRateLimit, ∀ w ∈ s.unwrapRateUsage, w.2 ≤ limit
  backed : s.totalWrapped.getD 0 ≤ s.reserve

theorem limits_ext (h : t.limits = s.limits) : t.minAmount = s.minAmount ∧
    t.porOracle = s.porOracle ∧ t.unwrapRateLimit = s.unwrapRateLimit ∧
    t.unwrapRateLimitPaused = s.unwrapRateLimitPaused ∧ rateWindow t = rateWindow s := by
  simp only [State.limits, Limits.mk.injEq] at h
  obtain ⟨hmin, horacle, hlimit, hwindow, hpaused⟩ := h
  exact ⟨hmin, horacle, hlimit, hpaused, by rw [rateWindow, hwindow, rateWindow]⟩

theorem Within.next {start : State} {past : List (Entry State (Invocation house MixedCall))}
    {e : Entry State (Invocation house MixedCall)} (hs : Within start past e.before)
    (hopen : start.unwrapRateLimitPaused.getD false = false)
    (hkept : e.after.limits = e.before.limits) (h : LimitedStep e) :
    Within start (past ++ [e]) e.after := by
  obtain ⟨_, _, hlimit, hpaused, hwindow⟩ := limits_ext hs.limits_eq
  have hrated := h.rated (by rw [hpaused, hopen])
  rw [hwindow, hlimit] at hrated
  refine ⟨hkept.trans hs.limits_eq, fun hsome => ?_, fun limit hmem w hw => ?_, h.backed hs.backed⟩
  · obtain ⟨limit, hmem⟩ := Option.isSome_iff_exists.mp hsome
    have husage := hrated limit hmem
    rw [windowUsage_append, hs.usage_eq hsome]
    split at husage
    · next hunwraps => rw [if_pos hunwraps, husage.1]
    · next hwraps => rw [if_neg hwraps, husage]
  · have husage := hrated limit hmem
    split at husage
    · rw [husage.1] at hw
      obtain rfl := Option.some_inj.mp hw
      exact husage.2
    · rw [husage] at hw
      exact hs.usage_le limit hmem w hw

theorem setUp_within (reserve : ℕ) (setup : List (Invocation house SetupCall)) :
    Within (setUp { reserve := reserve } setup) ([] : List (Entry State (Invocation house MixedCall)))
      (setUp { reserve := reserve } setup) := by
  have hrun : (setUp { reserve := reserve } setup).unwrapRateUsage = none ∧
      (setUp { reserve := reserve } setup).totalWrapped.getD 0 = 0 ∧
      (setUp { reserve := reserve } setup).reserve = reserve := by
    refine run_invariant (I := fun s : State => s.unwrapRateUsage = none ∧
      s.totalWrapped.getD 0 = 0 ∧ s.reserve = reserve) (fun s i t hs h => ?_) ⟨rfl, rfl, rfl⟩ setup
    unfold execSetup at h
    cases hcall : i.call with
    | initializeWrapper admin wrappedToken underlyingToken cap wrapFee unwrapFee payee minimum =>
      simp only [hcall, initializeWrapper, bind_eq_ok, pure_eq_ok] at h
      obtain ⟨_, _, _, _, _, _, _, _, _, _, _, _, rfl⟩ := h
      exact ⟨hs.1, rfl, hs.2.2⟩
    | setMinAmount minimum =>
      simp only [hcall, setMinAmount, bind_eq_ok, pure_eq_ok] at h
      obtain ⟨_, _, _, _, rfl⟩ := h
      exact hs
    | setUnwrapRateLimit limit window =>
      simp only [hcall, setUnwrapRateLimit, bind_eq_ok, pure_eq_ok] at h
      obtain ⟨_, _, _, _, rfl⟩ := h
      exact hs
    | setPorOracle oracle =>
      simp only [hcall, setPorOracle, bind_eq_ok, pure_eq_ok] at h
      obtain ⟨_, _, rfl⟩ := h
      exact hs
    | setUnwrapRateLimitPaused paused =>
      simp only [hcall, setUnwrapRateLimitPaused, bind_eq_ok, pure_eq_ok] at h
      obtain ⟨_, _, rfl⟩ := h
      exact hs
  obtain ⟨husage, htotal, hreserve⟩ := hrun
  refine ⟨rfl, fun _ => husage.symm, fun limit _ w hw => ?_, ?_⟩
  · rw [husage] at hw
    cases hw
  · rw [htotal, hreserve]
    exact Int.natCast_nonneg reserve

/-- Limits that are configured hold in every run whose batches keep to them. -/
theorem limits_hold (reserve : ℕ) (setup : List (Invocation house SetupCall))
    (hopen : (setUp { reserve := reserve } setup).unwrapRateLimitPaused.getD false = false)
    (is : List (Invocation house MixedCall))
    (hkeeps : ∀ e ∈ history execMixed (setUp { reserve := reserve } setup) is,
      KeepsLimits e.invocation e.before) :
    LimitsHold (setUp { reserve := reserve } setup) is := by
  have hstart := setUp_within reserve setup
  generalize setUp { reserve := reserve } setup = start at hopen hkeeps hstart ⊢
  have hstep : ∀ past s (i : Invocation house MixedCall) t, Within start past s →
      (∀ u, execMixed i s = .ok u → KeepsLimits i s) → execMixed i s = .ok t →
      Within start (past ++ [⟨s, i, t⟩]) t := fun past s i t hs hi h =>
    Within.next (e := ⟨s, i, t⟩) hs hopen (execMixed_limits h) (execMixed_limited (hi t h) h)
  have hP := along_of_history (Q := fun s i => KeepsLimits i s) hkeeps
  have hentry : ∀ e ∈ history execMixed start is,
      e.before.limits = start.limits ∧ LimitedStep e ∧ e.before.totalWrapped.getD 0 ≤ e.before.reserve := by
    intro e he
    obtain ⟨past, later, hsplit⟩ := List.append_of_mem he
    obtain ⟨hs, hi, hok⟩ := history_split hstep hstart hP hsplit
    exact ⟨hs.limits_eq, execMixed_limited (hi _ hok) hok, hs.backed⟩
  refine ⟨fun limit hlimit past hpast w hw => ?_, fun e he hwraps oracle horacle => ?_,
    fun e he min hmin => ?_, fun e he => ?_⟩
  · -- a prefix of the history is what led to some state of the run
    have hwithin : ∃ s, Within start past s := by
      obtain ⟨rest, hrest⟩ := hpast
      cases rest with
      | nil =>
        rw [List.append_nil] at hrest
        rw [hrest]
        exact ⟨_, history_invariant_along hstep hstart hP⟩
      | cons e later => exact ⟨_, (history_split hstep hstart hP hrest.symm).1⟩
    obtain ⟨s, hs⟩ := hwithin
    rw [hs.usage_eq (Option.isSome_iff_exists.mpr ⟨limit, hlimit⟩)] at hw
    exact hs.usage_le limit hlimit w hw
  · obtain ⟨hlimits, hlimited, _⟩ := hentry e he
    obtain ⟨_, hsame, _⟩ := limits_ext hlimits
    rw [← hsame] at horacle
    exact hlimited.oracle hwraps oracle horacle
  · obtain ⟨hlimits, hlimited, _⟩ := hentry e he
    rw [← (limits_ext hlimits).1] at hmin
    exact hlimited.minimum min hmin
  · obtain ⟨_, hlimited, hbacked⟩ := hentry e he
    exact hlimited.backed hbacked

def taxedHouse : Address := ⟨0⟩
def taxedAdmin : Address := ⟨1⟩
def taxedUser : Address := ⟨2⟩
def taxedOracle : Address := ⟨3⟩

/-- A token that keeps `tax` percent of every transfer, and an oracle that answers 150. -/
def taxedInvoke {κ : Type} (tax : ℕ) (call : κ) : Invocation taxedHouse κ where
  sequence := 1
  auths := [taxedAdmin, taxedUser]
  accepts _ x := 0 ≤ x.amount
  delivers _ x := x.amount.toNat * (100 - tax) / 100
  getReserve oracle := if oracle = taxedOracle then some 150 else none
  call := call
  outside := by decide

/-- At least 10 at a time, at most 100 in 50 ledgers. -/
def taxedSetup : List (Invocation taxedHouse SetupCall) :=
  [taxedInvoke 0 (.initializeWrapper taxedAdmin ⟨4⟩ ⟨5⟩ none none none none (some 10)),
    taxedInvoke 0 (.setUnwrapRateLimit 100 50), taxedInvoke 0 (.setPorOracle (some taxedOracle))]

def taxedStart : State := setUp { reserve := (0 : ℕ) } taxedSetup

/-- A batch that unwraps more than the limit, one below the minimum, one above the oracle's answer,
    and one whose deposit does not all arrive. -/
theorem batches_ignore_limits :
    taxedStart.unwrapRateLimitPaused.getD false = false ∧
    ¬ LimitsHold taxedStart [taxedInvoke 0 (.wrap taxedUser 140),
      taxedInvoke 0 (.unwrapBatch taxedUser [(taxedUser, 120)])] ∧
    ¬ LimitsHold taxedStart [taxedInvoke 0 (.wrapBatch taxedUser [(taxedUser, 1)])] ∧
    ¬ LimitsHold taxedStart [taxedInvoke 0 (.wrapBatch taxedUser [(taxedUser, 200)])] ∧
    ¬ LimitsHold taxedStart [taxedInvoke 10 (.wrapBatch taxedUser [(taxedUser, 100)])] := by
  refine ⟨by decide +kernel, fun h => ?_, fun h => ?_, fun h => ?_, fun h => ?_⟩
  · have hlimit : taxedStart.unwrapRateLimit = some 100 := by decide +kernel
    have husage : windowUsage (rateWindow taxedStart) (history execMixed taxedStart
        [taxedInvoke 0 (.wrap taxedUser 140),
          taxedInvoke 0 (.unwrapBatch taxedUser [(taxedUser, 120)])]) = some (1, 120) := by
      decide +kernel
    exact absurd (h.rate 100 hlimit _ (List.prefix_refl _) (1, 120) husage) (by decide)
  · have hmin : taxedStart.minAmount = some 10 := by decide +kernel
    obtain ⟨e, he, hamounts⟩ := List.mem_map.mp (show [1] ∈ (history execMixed taxedStart
        [taxedInvoke 0 (.wrapBatch taxedUser [(taxedUser, 1)])]).map
          (fun e => e.invocation.call.amounts) by decide +kernel)
    exact absurd (h.minimum e he 10 hmin 1 (by rw [hamounts]; decide)) (by decide)
  · have horacle : taxedStart.porOracle = some taxedOracle := by decide +kernel
    obtain ⟨e, he, hafter⟩ := List.mem_map.mp (show (false, some (150 : ℤ), some (200 : ℤ)) ∈
        (history execMixed taxedStart [taxedInvoke 0 (.wrapBatch taxedUser [(taxedUser, 200)])]).map
          (fun e => (e.invocation.call.unwraps, e.invocation.getReserve taxedOracle,
            e.after.totalWrapped)) by decide +kernel)
    simp only [Prod.mk.injEq] at hafter
    obtain ⟨hwraps, hanswer, htotal⟩ := hafter
    obtain ⟨reserve, hreserve, hle⟩ := h.oracle e he hwraps taxedOracle horacle
    rw [hanswer] at hreserve
    obtain rfl := Option.some_inj.mp hreserve
    rw [htotal] at hle
    exact absurd hle (by decide)
  · obtain ⟨e, he, hafter⟩ := List.mem_map.mp (show (some (100 : ℤ), (90 : ℤ)) ∈
        (history execMixed taxedStart [taxedInvoke 10 (.wrapBatch taxedUser [(taxedUser, 100)])]).map
          (fun e => (e.after.totalWrapped, e.after.reserve)) by decide +kernel)
    simp only [Prod.mk.injEq] at hafter
    have hle := h.backed e he
    rw [hafter.1, hafter.2] at hle
    exact absurd hle (by decide)

/-- Single amounts, of which a part does not arrive, around a batch that keeps to the limits. -/
def taxedRun : List (Invocation taxedHouse MixedCall) :=
  [taxedInvoke 10 (.wrap taxedUser 100), taxedInvoke 0 (.wrapBatch taxedUser [(taxedUser, 40)]),
    taxedInvoke 10 (.unwrap taxedUser 60)]

theorem limits_hold_demo :
    LimitsHold taxedStart taxedRun ∧ (runMixed taxedStart taxedRun).totalWrapped = some 70 :=
  ⟨limits_hold 0 taxedSetup (by decide +kernel) taxedRun (by decide +kernel), by decide +kernel⟩

end SorobanKit.WrappedToken
