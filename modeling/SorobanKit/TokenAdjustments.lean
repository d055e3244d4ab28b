import SorobanKit.TokenConservation

set_option autoImplicit false

/-!
# Allowance adjustments

`increase_allowance` and `decrease_allowance` read the active allowance, adjust it and write it
back with the expiration ledger they read. An absent or expired entry reads as zero that expired
at ledger 0, so what is added to it has expired when it is written; and the subtraction is
checked against the range of an `i128`, not against zero.
-/
namespace SorobanKit.Token
open HostInteger HostInvocation

/-- The entry exists and has not expired. -/
def AllowanceActive (sequence : ℕ) (owner spender : Address) (s : State) : Prop :=
  ∃ v, s.allowance (owner, spender) = some v ∧ allowanceIsActive sequence v.expirationLedger

/-- `increase_allowance` fails with `Overflow` or raises the allowance by `delta`. -/
def IncreaseLaw (ctx : Context) (owner spender : Address) (delta : ℤ) (s : State) : Prop :=
  increaseAllowance ctx owner spender delta s = .error (.error .overflow) ∨
    ∃ t, increaseAllowance ctx owner spender delta s = .ok t ∧
      getAllowance ctx.sequence owner spender t = getAllowance ctx.sequence owner spender s + delta

/-- What `decrease_allowance` does when the allowance covers `delta`. -/
structure Lowered (ctx : Context) (owner spender : Address) (delta : ℤ) (s t : State) : Prop where
  ok : decreaseAllowance ctx owner spender delta s = .ok t
  amount : getAllowance ctx.sequence owner spender t =
    getAllowance ctx.sequence owner spender s - delta
  nonneg : 0 ≤ getAllowance ctx.sequence owner spender t
  expiration : ∀ v, s.allowance (owner, spender) = some v →
    allowanceIsActive ctx.sequence v.expirationLedger →
      t.allowance (owner, spender) = some ⟨v.amount - delta, v.expirationLedger⟩

/-- `decrease_allowance` lowers an allowance that covers `delta` and fails with
    `InsufficientAllowance` otherwise. -/
def DecreaseLaw (ctx : Context) (owner spender : Address) (delta : ℤ) (s : State) : Prop :=
  (delta ≤ getAllowance ctx.sequence owner spender s ∧ ∃ t, Lowered ctx owner spender delta s t) ∨
    (getAllowance ctx.sequence owner spender s < delta ∧
      decreaseAllowance ctx owner spender delta s = .error (.error .insufficientAllowance))

theorem readActiveAllowance_active {sequence : ℕ} {owner spender : Address} {s : State}
    {v : AllowanceValue} (hv : s.allowance (owner, spender) = some v)
    (hactive : allowanceIsActive sequence v.expirationLedger) :
    readActiveAllowance sequence owner spender s = (v.amount, v.expirationLedger) := by
  simp [readActiveAllowance, hv, hactive]

theorem readActiveAllowance_inactive {sequence : ℕ} {owner spender : Address} {s : State}
    (h : ¬ AllowanceActive sequence owner spender s) :
    readActiveAllowance sequence owner spender s = (0, expiredAllowanceLedger) := by
  unfold readActiveAllowance
  split
  · next v hv =>
    rw [if_neg]
    intro hactive
    exact h ⟨v, hv, hactive⟩
  · rfl

theorem getAllowance_inactive {sequence : ℕ} {owner spender : Address} {s : State}
    (h : ¬ AllowanceActive sequence owner spender s) :
    getAllowance sequence owner spender s = 0 := by
  rw [← readActiveAllowance_fst, readActiveAllowance_inactive h]

theorem getAllowance_active {sequence : ℕ} {owner spender : Address} {s : State}
    {v : AllowanceValue} (hv : s.allowance (owner, spender) = some v)
    (hactive : allowanceIsActive sequence v.expirationLedger) :
    getAllowance sequence owner spender s = v.amount := by
  rw [← readActiveAllowance_fst, readActiveAllowance_active hv hactive]

theorem getAllowance_setAllowance (sequence : ℕ) (owner spender : Address) (amount : ℤ)
    (expirationLedger : ℕ) (s : State) :
    getAllowance sequence owner spender (setAllowance owner spender amount expirationLedger s) =
      if allowanceIsActive sequence expirationLedger then amount else 0 := by
  simp [getAllowance, setAllowance]

theorem allowanceIsActive_expired (sequence : ℕ) :
    allowanceIsActive sequence expiredAllowanceLedger = true ↔ sequence = 0 := by
  simp [allowanceIsActive, expiredAllowanceLedger, allowanceExpiryGraceLedgers, saturatingAddU32]

section Calls
variable {ctx : Context} {owner spender : Address} {delta : ℤ} {s : State}

theorem increaseAllowance_eq (hauth : owner ∈ ctx.auths) :
    increaseAllowance ctx owner spender delta s =
      if InI128 (getAllowance ctx.sequence owner spender s + delta) then
        .ok (setAllowance owner spender (getAllowance ctx.sequence owner spender s + delta)
          (readActiveAllowance ctx.sequence owner spender s).2 s)
      else .error (.error .overflow) := by
  have hpass : (requireAuth ctx owner : Result TokenError Unit) = .ok () :=
    requireAuth_eq_ok.mpr hauth
  have hread := readActiveAllowance_fst ctx.sequence owner spender s
  rw [increaseAllowance, hpass, ok_bind, ← hread]
  cases readActiveAllowance ctx.sequence owner spender s with
  | mk current expirationLedger =>
    simp only [checkedAdd, checked]
    split <;> rfl

theorem decreaseAllowance_eq (hauth : owner ∈ ctx.auths) :
    decreaseAllowance ctx owner spender delta s =
      if InI128 (getAllowance ctx.sequence owner spender s - delta) then
        .ok (setAllowance owner spender (getAllowance ctx.sequence owner spender s - delta)
          (readActiveAllowance ctx.sequence owner spender s).2 s)
      else .error (.error .insufficientAllowance) := by
  have hpass : (requireAuth ctx owner : Result TokenError Unit) = .ok () :=
    requireAuth_eq_ok.mpr hauth
  have hread := readActiveAllowance_fst ctx.sequence owner spender s
  rw [decreaseAllowance, hpass, ok_bind, ← hread]
  cases readActiveAllowance ctx.sequence owner spender s with
  | mk current expirationLedger =>
    simp only [checkedSub, checked]
    split <;> rfl

theorem increaseLaw_of_active (hauth : owner ∈ ctx.auths)
    (hactive : AllowanceActive ctx.sequence owner spender s) :
    IncreaseLaw ctx owner spender delta s := by
  obtain ⟨v, hv, hlive⟩ := hactive
  unfold IncreaseLaw
  rw [increaseAllowance_eq hauth]
  split
  · right
    refine ⟨_, rfl, ?_⟩
    rw [getAllowance_setAllowance, readActiveAllowance_active hv hlive, if_pos hlive]
  · exact .inl rfl

theorem increaseLaw_inactive_iff (hauth : owner ∈ ctx.auths) (hrange : InI128 delta)
    (hinactive : ¬ AllowanceActive ctx.sequence owner spender s) :
    IncreaseLaw ctx owner spender delta s ↔ ctx.sequence = 0 ∨ delta = 0 := by
  have hzero := getAllowance_inactive hinactive
  have hread := readActiveAllowance_inactive hinactive
  have hok : increaseAllowance ctx owner spender delta s =
      .ok (setAllowance owner spender delta expiredAllowanceLedger s) := by
    rw [increaseAllowance_eq hauth, hzero, hread, zero_add, if_pos hrange]
  have hafter := getAllowance_setAllowance ctx.sequence owner spender delta expiredAllowanceLedger s
  simp only [allowanceIsActive_expired] at hafter
  have hlaw : IncreaseLaw ctx owner spender delta s ↔
      (if ctx.sequence = 0 then delta else 0) = delta := by
    simp only [IncreaseLaw, hok, hzero, reduceCtorEq, Except.ok.injEq, exists_eq_left', hafter,
      zero_add, false_or]
  rw [hlaw]
  split <;> omega

theorem increaseLaw_iff (hauth : owner ∈ ctx.auths) (hrange : InI128 delta) :
    IncreaseLaw ctx owner spender delta s ↔
      AllowanceActive ctx.sequence owner spender s ∨ ctx.sequence = 0 ∨ delta = 0 := by
  by_cases hactive : AllowanceActive ctx.sequence owner spender s
  · exact iff_of_true (increaseLaw_of_active hauth hactive) (.inl hactive)
  · rw [increaseLaw_inactive_iff hauth hrange hactive]
    exact (or_iff_right hactive).symm

theorem lowered_of_le (hauth : owner ∈ ctx.auths) (hdelta : 0 ≤ delta)
    (hstored : InI128 (getAllowance ctx.sequence owner spender s))
    (hle : delta ≤ getAllowance ctx.sequence owner spender s) :
    ∃ t, Lowered ctx owner spender delta s t := by
  have hfits : InI128 (getAllowance ctx.sequence owner spender s - delta) := by
    unfold InI128 at hstored ⊢
    omega
  have hok : decreaseAllowance ctx owner spender delta s = _ := decreaseAllowance_eq hauth
  rw [if_pos hfits] at hok
  have hamount : getAllowance ctx.sequence owner spender
      (setAllowance owner spender (getAllowance ctx.sequence owner spender s - delta)
        (readActiveAllowance ctx.sequence owner spender s).2 s) =
      getAllowance ctx.sequence owner spender s - delta := by
    rw [getAllowance_setAllowance]
    by_cases hactive : AllowanceActive ctx.sequence owner spender s
    · obtain ⟨v, hv, hlive⟩ := hactive
      rw [readActiveAllowance_active hv hlive, if_pos hlive]
    · have hzero := getAllowance_inactive hactive
      split <;> omega
  refine ⟨_, hok, hamount, by omega, ?_⟩
  intro v hv hlive
  rw [readActiveAllowance_active hv hlive, getAllowance_active hv hlive]
  exact Function.update_self ..

theorem decreaseLaw_iff (hauth : owner ∈ ctx.auths) (hdelta : 0 ≤ delta)
    (hstored : InI128 (getAllowance ctx.sequence owner spender s)) :
    DecreaseLaw ctx owner spender delta s ↔
      delta ≤ getAllowance ctx.sequence owner spender s ∨
        ¬ InI128 (getAllowance ctx.sequence owner spender s - delta) := by
  constructor
  · rintro (⟨hle, _⟩ | ⟨_, herror⟩)
    · exact .inl hle
    · right
      intro hfits
      rw [decreaseAllowance_eq hauth, if_pos hfits] at herror
      cases herror
  · intro hcond
    by_cases hle : delta ≤ getAllowance ctx.sequence owner spender s
    · exact .inl ⟨hle, lowered_of_le hauth hdelta hstored hle⟩
    · have hwide := hcond.resolve_left hle
      right
      rw [decreaseAllowance_eq hauth, if_neg hwide]
      exact ⟨by omega, rfl⟩

end Calls

/-- In every state, for every amount that is not negative: an increase does what it says exactly
    on an active entry (or in ledger 0, or when nothing is added), and a decrease exactly when
    the allowance covers it or the difference leaves the range of an `i128`. -/
theorem allowance_adjustment_iff (ctx : Context) (owner spender : Address) (delta : ℤ) (s : State)
    (hauth : owner ∈ ctx.auths) (hdelta : 0 ≤ delta) (hrange : InI128 delta)
    (hstored : ∀ v, s.allowance (owner, spender) = some v → InI128 v.amount) :
    (IncreaseLaw ctx owner spender delta s ↔
      AllowanceActive ctx.sequence owner spender s ∨ ctx.sequence = 0 ∨ delta = 0) ∧
    (DecreaseLaw ctx owner spender delta s ↔
      delta ≤ getAllowance ctx.sequence owner spender s ∨
        ¬ InI128 (getAllowance ctx.sequence owner spender s - delta)) := by
  refine ⟨increaseLaw_iff hauth hrange, decreaseLaw_iff hauth hdelta ?_⟩
  by_cases hactive : AllowanceActive ctx.sequence owner spender s
  · obtain ⟨v, hv, hlive⟩ := hactive
    rw [getAllowance_active hv hlive]
    exact hstored v hv
  · rw [getAllowance_inactive hactive]
    decide

def demoAdjust : Context := { sequence := 2, auths := [demoAlice] }

def demoCreated : State := run demoDeployment State.empty [demoCreate none]

/-- On an allowance of 50 until ledger 9 both adjustments do what they say. -/
theorem allowance_adjustment_demo :
    IncreaseLaw demoAdjust demoAlice demoBob 25 (setAllowance demoAlice demoBob 50 9 demoCreated) ∧
      DecreaseLaw demoAdjust demoAlice demoBob 25
        (setAllowance demoAlice demoBob 50 9 demoCreated) := by
  have hstored : ∀ v, (setAllowance demoAlice demoBob 50 9 demoCreated).allowance
      (demoAlice, demoBob) = some v → InI128 v.amount := by
    intro v hv
    cases hv
    decide
  have hlaws := allowance_adjustment_iff demoAdjust demoAlice demoBob 25
    (setAllowance demoAlice demoBob 50 9 demoCreated) (by decide) (by decide) (by decide) hstored
  exact ⟨hlaws.1.mpr (.inl ⟨_, rfl, rfl⟩), hlaws.2.mpr (.inl (by decide))⟩

/-- Without an allowance at ledger 2, 25 are added and the allowance stays 0, and 1 is taken from
    it as if it were there. -/
theorem adjustments_without_allowance :
    ¬ IncreaseLaw demoAdjust demoAlice demoBob 25 demoCreated ∧
      ¬ DecreaseLaw demoAdjust demoAlice demoBob 1 demoCreated ∧
      decreaseAllowance demoAdjust demoAlice demoBob 1 demoCreated =
        .ok (setAllowance demoAlice demoBob (-1) 0 demoCreated) := by
  have hinactive : ¬ AllowanceActive 2 demoAlice demoBob demoCreated := by
    rintro ⟨v, hv, _⟩
    cases hv
  refine ⟨?_, ?_, rfl⟩
  · rw [increaseLaw_iff (by decide) (by decide)]
    rintro (hactive | hledger | hdelta)
    · exact hinactive hactive
    · cases hledger
    · cases hdelta
  · rw [decreaseLaw_iff (by decide) (by decide) (by decide)]
    decide

end SorobanKit.Token
