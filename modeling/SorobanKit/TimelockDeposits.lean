import SorobanKit.TimelockTranches

set_option autoImplicit false

/-!
# Deposits of several tokens

Every deposit names the ledger it is locked until, but the contract keeps one ledger for
each token and one amount for the whole timelock. The payouts respect the deposits if all
deposits of a token name the same ledger, and the timelock is closed only when it holds the
recorded amount of one token and nothing else.
-/
namespace SorobanKit.Timelock
open HostInteger HostInvocation HostTransfers HostRuns

def Purpose.lockedUntil : Purpose → Option ℕ
  | .lock releaseLedger => some releaseLedger
  | _ => none

/-- Everything that was locked in `token`. -/
def locked (token : Address) (log : List (Transfer Purpose)) : ℤ :=
  sumOf (fun x => x.purpose.lockedUntil.isSome ∧ x.token = token) log

/-- What was locked in `token` until `ledger` or earlier. -/
def maturedLocks (token : Address) (ledger : ℕ) (log : List (Transfer Purpose)) : ℤ :=
  sumOf (fun x => x.purpose.lockedUntil.any (· ≤ ledger) ∧ x.token = token) log

/-- What was locked in `token` and neither paid out nor refunded. -/
def held (token : Address) (log : List (Transfer Purpose)) : ℤ :=
  locked token log - paid token log - refunded token log

section Logs
variable {token other : Address} {log : List (Transfer Purpose)}

theorem locked_append (token : Address) (xs ys : List (Transfer Purpose)) :
    locked token (xs ++ ys) = locked token xs + locked token ys := sumOf_append ..

theorem maturedLocks_append (token : Address) (ledger : ℕ) (xs ys : List (Transfer Purpose)) :
    maturedLocks token ledger (xs ++ ys) = maturedLocks token ledger xs + maturedLocks token ledger ys :=
  sumOf_append ..

theorem held_concat (token : Address) (log : List (Transfer Purpose)) (x : Transfer Purpose) :
    held token (log ++ [x]) = held token log + held token [x] := by
  unfold held
  rw [locked_append, paid_append, refunded_append]
  omega

theorem sumOf_nonneg {p : Transfer Purpose → Bool} (h : ∀ x ∈ log, 0 ≤ x.amount) :
    0 ≤ sumOf p log := by
  apply List.sum_nonneg
  intro amount hamount
  obtain ⟨x, hx, rfl⟩ := List.mem_map.mp hamount
  exact h x (List.mem_filter.mp hx).1

/-- If all locks of a token are until `releaseLedger`, they mature together. -/
theorem maturedLocks_eq_locked {releaseLedger ledger : ℕ}
    (h : ∀ x ∈ log, ∀ r, x.purpose = .lock r → x.token = token → r = releaseLedger)
    (hle : releaseLedger ≤ ledger) : maturedLocks token ledger log = locked token log := by
  refine sumOf_congr fun x hx => ?_
  by_cases htoken : x.token = token
  · cases hpurpose : x.purpose with
    | lock r =>
      have hr := h x hx r hpurpose htoken
      simp [Purpose.lockedUntil, htoken, hr, hle]
    | fund | payout | refund | stake | accrued => simp [Purpose.lockedUntil]
  · simp [htoken]

theorem locked_eq_zero (h : ∀ x ∈ log, ∀ r, x.purpose = .lock r → x.token ≠ token) :
    locked token log = 0 := by
  refine sumOf_eq_zero fun x hx => ?_
  cases hpurpose : x.purpose with
  | lock r => simp [h x hx r hpurpose]
  | fund | payout | refund | stake | accrued => simp [Purpose.lockedUntil]

/-- A lock comes from elsewhere, and a payout or a refund goes elsewhere. -/
def Outward (contract : Address) (x : Transfer Purpose) : Prop :=
  (x.purpose.lockedUntil.isSome ∨ x.purpose = .payout ∨ x.purpose = .refund) ∧
    x.Crosses (fun purpose => purpose.lockedUntil.isSome) contract

theorem outward_lock {contract source : Address} (h : source ≠ contract) (releaseLedger : ℕ)
    (amount : ℤ) : Outward contract ⟨.lock releaseLedger, token, source, contract, amount⟩ := by
  simp [Outward, Transfer.Crosses, Purpose.lockedUntil, h]

theorem outward_payout {contract target : Address} (h : target ≠ contract) (amount : ℤ) :
    Outward contract ⟨.payout, token, contract, target, amount⟩ := by
  simp [Outward, Transfer.Crosses, Purpose.lockedUntil, h]

theorem outward_refund {contract target : Address} (h : target ≠ contract) (amount : ℤ) :
    Outward contract ⟨.refund, token, contract, target, amount⟩ := by
  simp [Outward, Transfer.Crosses, Purpose.lockedUntil, h]

/-- What is held by the books is what the contract has gained, if it never pays itself. -/
theorem gain_eq_held {contract : Address} (h : ∀ x ∈ log, Outward contract x) :
    gain token contract log = held token log := by
  have hout : sumOf (fun x => ¬ x.purpose.lockedUntil.isSome ∧ x.token = token) log =
      paid token log + refunded token log := by
    induction log with
    | nil => rfl
    | cons x log ih =>
      obtain ⟨⟨hpurpose, _⟩, hlog⟩ := List.forall_mem_cons.mp h
      have ih := ih hlog
      unfold paid refunded at ih ⊢
      rw [sumOf_cons, sumOf_cons, sumOf_cons, ih]
      rcases hpurpose with hpurpose | hpurpose | hpurpose
      · cases hx : x.purpose <;> simp_all [Purpose.lockedUntil]
      · simp only [hpurpose, Purpose.lockedUntil, Option.isSome_none, Bool.false_eq_true,
          not_false_eq_true, true_and, reduceCtorEq, false_and, decide_false, ↓reduceIte, zero_add]
        omega
      · simp only [hpurpose, Purpose.lockedUntil, Option.isSome_none, Bool.false_eq_true,
          not_false_eq_true, true_and, reduceCtorEq, false_and, decide_false, ↓reduceIte, zero_add]
        omega
  rw [gain_of_crosses fun x hx => (h x hx).2, hout, held, locked]
  omega

theorem held_lock (releaseLedger : ℕ) (source target : Address) (amount : ℤ) :
    held other [⟨.lock releaseLedger, token, source, target, amount⟩] =
      if token = other then amount else 0 := by
  simp [held, locked, paid, refunded, Purpose.lockedUntil]

theorem held_payout (source target : Address) (amount : ℤ) :
    held other [⟨.payout, token, source, target, amount⟩] =
      -(if token = other then amount else 0) := by
  simp [held, locked, paid, refunded, Purpose.lockedUntil]

theorem held_refund (source target : Address) (amount : ℤ) :
    held other [⟨.refund, token, source, target, amount⟩] =
      -(if token = other then amount else 0) := by
  simp [held, locked, paid, refunded, Purpose.lockedUntil]

end Logs

/-- A deposit names the ledger on record for its token, and a new token one that is recorded.
    A release pays out all there is, of a token that has matured; a cancellation refunds all
    there is. -/
def SafeDeposit (s : State) (i : Invocation) : Prop :=
  match i.call with
  | .deposit token _ releaseLedger =>
    (s.tokenReleaseLedger token = none ∧ releaseLedger < u32Max) ∨
      s.tokenReleaseLedger token = some releaseLedger
  | .release token => s.amount = some (unclaimed s token) ∧
    (∀ other, other ≠ token → unclaimed s other = 0) ∧
    ∀ releaseLedger, s.tokenReleaseLedger token = some releaseLedger → releaseLedger ≤ i.sequence
  | .cancel => ∀ token, s.token = some token → s.amount = some (unclaimed s token) ∧
    ∀ other, other ≠ token → unclaimed s other = 0
  | _ => True

/-- A timelock without tranches, nothing of which was paid after `ledger`. -/
structure Deposited (ledger : ℕ) (s : State) : Prop where
  plain : Plain s
  started : s.state ≠ none
  count_eq : s.trancheCount = none
  schedule : ∀ x ∈ s.transfers, ∀ releaseLedger, x.purpose = .lock releaseLedger →
    s.tokenReleaseLedger x.token = some releaseLedger
  nonneg : ∀ x ∈ s.transfers, 0 ≤ x.amount
  range : ∀ token, 0 ≤ unclaimed s token ∧ InI128 (unclaimed s token)
  held_eq : s.state = some .active → ∀ token, held token s.transfers = unclaimed s token
  paid_le : ∀ token, paid token s.transfers ≤ maturedLocks token ledger s.transfers
  settled : s.state ≠ some .active → ∀ token, held token s.transfers = 0

section Steps
variable {self : Address} {ledger : ℕ} {s t : State} {i : Invocation}

theorem Deposited.paid_nonneg (h : Deposited ledger s) (token : Address) :
    0 ≤ paid token s.transfers := sumOf_nonneg h.nonneg

theorem Deposited.refunded_nonneg (h : Deposited ledger s) (token : Address) :
    0 ≤ refunded token s.transfers := sumOf_nonneg h.nonneg

/-- A token without a ledger on record was never locked, and nothing of it is held. -/
theorem Deposited.unlocked (h : Deposited ledger s) (hactive : s.state = some .active)
    {token : Address} (hnone : s.tokenReleaseLedger token = none) : unclaimed s token = 0 := by
  have hlocked : locked token s.transfers = 0 := by
    refine locked_eq_zero fun x hx r hpurpose htoken => ?_
    have hrecord := h.schedule x hx r hpurpose
    rw [htoken, hnone] at hrecord
    cases hrecord
  have hheld := h.held_eq hactive token
  have hpaid := h.paid_nonneg token
  have hrefunded := h.refunded_nonneg token
  have hrange := (h.range token).1
  unfold held at hheld
  omega

theorem Deposited.payout_le (h : Deposited ledger s) (hactive : s.state = some .active)
    {token : Address} {releaseLedger : ℕ} {amount : ℤ}
    (hrecord : s.tokenReleaseLedger token = some releaseLedger) (hle : releaseLedger ≤ ledger)
    (hamount : amount ≤ unclaimed s token) :
    paid token s.transfers + amount ≤ maturedLocks token ledger s.transfers := by
  have hmature : maturedLocks token ledger s.transfers = locked token s.transfers := by
    refine maturedLocks_eq_locked (fun x hx r hpurpose htoken => ?_) hle
    have hx := h.schedule x hx r hpurpose
    rw [htoken, hrecord] at hx
    cases hx
    rfl
  have hheld := h.held_eq hactive token
  have hrefunded := h.refunded_nonneg token
  unfold held at hheld
  omega

theorem maturedLocks_concat_of_none {x : Transfer Purpose} (hx : x.purpose.lockedUntil = none)
    (token : Address) (ledger : ℕ) (log : List (Transfer Purpose)) :
    maturedLocks token ledger (log ++ [x]) = maturedLocks token ledger log := by
  rw [maturedLocks_append]
  simp [maturedLocks, hx]

theorem schedule_concat_of_none {log : List (Transfer Purpose)} {x : Transfer Purpose}
    {record : Address → Option ℕ}
    (h : ∀ y ∈ log, ∀ r, y.purpose = .lock r → record y.token = some r)
    (hx : x.purpose.lockedUntil = none) :
    ∀ y ∈ log ++ [x], ∀ r, y.purpose = .lock r → record y.token = some r := by
  intro y hy r hpurpose
  rcases List.mem_append.mp hy with hy | hy
  · exact h y hy r hpurpose
  · rw [List.mem_singleton.mp hy] at hpurpose
    rw [hpurpose] at hx
    cases hx

theorem nonneg_concat {log : List (Transfer Purpose)} {x : Transfer Purpose}
    (h : ∀ y ∈ log, 0 ≤ y.amount) (hx : 0 ≤ x.amount) : ∀ y ∈ log ++ [x], 0 ≤ y.amount := by
  intro y hy
  rcases List.mem_append.mp hy with hy | hy
  · exact h y hy
  · rw [List.mem_singleton.mp hy]
    exact hx

theorem unclaimed_update {token : Address} {v : ℤ}
    (h : t.lockedBalance = Function.update s.lockedBalance token (some v)) (other : Address) :
    unclaimed t other = if token = other then v else unclaimed s other := by
  unfold unclaimed
  rw [h]
  by_cases hsame : token = other
  · subst hsame
    rw [Function.update_self, if_pos rfl, Option.getD_some]
  · rw [Function.update_of_ne (Ne.symm hsame), if_neg hsame]

theorem record_update {record : Address → Option ℕ} {token : Address} {releaseLedger : ℕ}
    (hsafe : (record token = none ∧ releaseLedger < u32Max) ∨ record token = some releaseLedger) :
    (if releaseLedger < (record token).getD u32Max then
      Function.update record token (some releaseLedger) else record) =
      Function.update record token (some releaseLedger) := by
  rcases hsafe with ⟨hnone, hlt⟩ | hsame
  · rw [hnone, Option.getD_none, if_pos hlt]
  · rw [hsame, Option.getD_some, if_neg (lt_irrefl _), ← hsame, Function.update_eq_self]

theorem record_kept {record : Address → Option ℕ} {token other : Address} {releaseLedger r : ℕ}
    (hsafe : (record token = none ∧ releaseLedger < u32Max) ∨ record token = some releaseLedger)
    (h : record other = some r) :
    Function.update record token (some releaseLedger) other = some r := by
  by_cases hsame : other = token
  · subst hsame
    rw [Function.update_self]
    rcases hsafe with ⟨hnone, _⟩ | hrecord
    · rw [hnone] at h
      cases h
    · rw [← hrecord, h]
  · rw [Function.update_of_ne hsame]
    exact h

theorem Deposited.deposited (h : Deposited ledger s) (hactive : s.state = some .active)
    {token admin : Address} {amount : ℤ} {releaseLedger : ℕ} (hpos : 0 < amount)
    (hrange : InI128 ((s.lockedBalance token).getD 0 + amount))
    (hsafe : (s.tokenReleaseLedger token = none ∧ releaseLedger < u32Max) ∨
      s.tokenReleaseLedger token = some releaseLedger)
    (ht : t = { s with
      lockedBalance := Function.update s.lockedBalance token
        (some ((s.lockedBalance token).getD 0 + amount)),
      tokenReleaseLedger :=
        if releaseLedger < (s.tokenReleaseLedger token).getD u32Max then
          Function.update s.tokenReleaseLedger token (some releaseLedger)
        else s.tokenReleaseLedger,
      tokenCount := t.tokenCount, tokenAt := t.tokenAt,
      transfers := s.transfers ++ [⟨.lock releaseLedger, token, admin, self, amount⟩] }) :
    Deposited ledger t := by
  have hrecord : t.tokenReleaseLedger = Function.update s.tokenReleaseLedger token
      (some releaseLedger) := by
    rw [ht]
    exact record_update hsafe
  have hunclaimed := unclaimed_update (s := s) (t := t) (by rw [ht])
  have hstate : t.state = s.state := by rw [ht]
  have htransfers : t.transfers =
      s.transfers ++ [⟨.lock releaseLedger, token, admin, self, amount⟩] := by rw [ht]
  refine ⟨?_, by rw [hstate]; exact h.started, by rw [ht]; exact h.count_eq, ?_, ?_, fun other => ?_,
    fun _ other => ?_, fun other => ?_, fun hother => absurd (hstate.trans hactive) hother⟩
  · rw [ht]
    exact ⟨h.plain.staking, h.plain.tranches⟩
  · intro x hx r hpurpose
    rw [htransfers] at hx
    rcases List.mem_append.mp hx with hx | hx
    · rw [hrecord]
      exact record_kept hsafe (h.schedule x hx r hpurpose)
    · rw [List.mem_singleton.mp hx] at hpurpose ⊢
      cases hpurpose
      rw [hrecord]
      exact Function.update_self ..
  · rw [htransfers]
    exact nonneg_concat h.nonneg (le_of_lt hpos)
  · have hold := (h.range token).1
    rw [hunclaimed other]
    split
    · unfold unclaimed at hold
      exact ⟨by omega, hrange⟩
    · exact h.range other
  · rw [htransfers, held_concat, held_lock, h.held_eq hactive other, hunclaimed other]
    split
    · next hsame =>
      subst hsame
      rfl
    · rw [add_zero]
  · have hold := h.paid_le other
    have hmore : 0 ≤ maturedLocks other ledger [⟨.lock releaseLedger, token, admin, self, amount⟩] :=
      sumOf_nonneg (by simp [le_of_lt hpos])
    rw [htransfers, paid_append, paid_singleton, if_neg (by simp), maturedLocks_append]
    omega

theorem Deposited.paid_payout_le (h : Deposited ledger s) (hactive : s.state = some .active)
    {token beneficiary : Address} {amount : ℤ} (hamount : amount ≤ unclaimed s token)
    (hmature : ∀ r, s.tokenReleaseLedger token = some r → r ≤ ledger) (other : Address) :
    paid other (s.transfers ++ [⟨.payout, token, self, beneficiary, amount⟩]) ≤
      maturedLocks other ledger (s.transfers ++ [⟨.payout, token, self, beneficiary, amount⟩]) := by
  have hold := h.paid_le other
  rw [paid_append, paid_singleton, maturedLocks_concat_of_none rfl]
  by_cases hsame : token = other
  · subst hsame
    rw [if_pos ⟨rfl, rfl⟩]
    show paid token s.transfers + amount ≤ _
    cases hrecord : s.tokenReleaseLedger token with
    | none =>
      have hzero := h.unlocked hactive hrecord
      omega
    | some r => exact h.payout_le hactive hrecord (hmature r hrecord) hamount
  · rw [if_neg (by simp [hsame]), add_zero]
    exact hold

/-- A transfer of all that is held, by which the timelock is left. -/
theorem Deposited.settles {x : Transfer Purpose} {state : TimelockState} {token : Address}
    (h : Deposited ledger s) (hactive : s.state = some .active)
    (hothers : ∀ other, other ≠ token → unclaimed s other = 0)
    (hamount : x.amount = unclaimed s token) (hpurpose : x.purpose.lockedUntil = none)
    (hheld : ∀ other, held other [x] = -(if token = other then x.amount else 0))
    (hpaid : ∀ other, paid other (s.transfers ++ [x]) ≤
      maturedLocks other ledger (s.transfers ++ [x]))
    (hstate : state ≠ .active) :
    Deposited ledger { s with state := some state, transfers := s.transfers ++ [x] } := by
  have hnonneg : 0 ≤ x.amount := by
    rw [hamount]
    exact (h.range token).1
  refine ⟨⟨h.plain.staking, h.plain.tranches⟩, Option.some_ne_none _, h.count_eq,
    schedule_concat_of_none h.schedule hpurpose, nonneg_concat h.nonneg hnonneg, h.range,
    fun hsame => absurd (Option.some.inj hsame) hstate, hpaid, fun _ other => ?_⟩
  rw [held_concat, hheld, h.held_eq hactive other]
  by_cases hsame : token = other
  · subst hsame
    rw [if_pos rfl]
    omega
  · rw [if_neg hsame, hothers other (Ne.symm hsame)]
    omega

theorem Deposited.released (h : Deposited ledger s) (hactive : s.state = some .active)
    {token beneficiary : Address} {amount : ℤ} (hamount : amount = unclaimed s token)
    (hothers : ∀ other, other ≠ token → unclaimed s other = 0)
    (hmature : ∀ r, s.tokenReleaseLedger token = some r → r ≤ ledger)
    (ht : t = { s with
      state := some .released,
      transfers := s.transfers ++ [⟨.payout, token, self, beneficiary, amount⟩] }) :
    Deposited ledger t := by
  subst ht
  exact h.settles hactive hothers hamount rfl (fun other => held_payout ..)
    (h.paid_payout_le hactive (le_of_eq hamount) hmature) (by decide)

theorem Deposited.cancelled (h : Deposited ledger s) (hactive : s.state = some .active)
    {token admin : Address} {amount : ℤ} (hamount : amount = unclaimed s token)
    (hothers : ∀ other, other ≠ token → unclaimed s other = 0)
    (ht : t = { s with
      state := some .cancelled,
      transfers := s.transfers ++ [⟨.refund, token, self, admin, amount⟩] }) :
    Deposited ledger t := by
  subst ht
  refine h.settles hactive hothers hamount rfl (fun other => held_refund ..) (fun other => ?_)
    (by decide)
  rw [paid_append, paid_singleton, if_neg (by simp), add_zero, maturedLocks_concat_of_none rfl]
  exact h.paid_le other

theorem claimable_single {env : Env} {token : Address} {claimable : ℤ} (hcount : s.trancheCount = none)
    (h : claimableAmountInternal env token s = .ok claimable) (hpos : 0 < claimable) :
    claimable = unclaimed s token ∧
      ∀ r, s.tokenReleaseLedger token = some r → r ≤ env.sequence := by
  unfold claimableAmountInternal at h
  rw [hcount] at h
  dsimp only at h
  split at h
  · rw [pure_eq_ok] at h
    omega
  · next hdue =>
    rw [pure_eq_ok] at h
    refine ⟨h.symm, fun r hr => ?_⟩
    rw [hr, Option.some_or, Option.getD_some] at hdue
    omega

theorem Deposited.claimed_partially (h : Deposited ledger s) (hactive : s.state = some .active)
    (hle : i.sequence ≤ ledger) {token beneficiary : Address} {amount claimable : ℤ}
    (hpos : 0 < amount) (hclaimable : claimableAmountInternal i.toEnv token s = .ok claimable)
    (hamount : amount ≤ claimable)
    (ht : t = { s with
      lockedBalance := Function.update s.lockedBalance token
        (some (saturatingSub ((s.lockedBalance token).getD 0) amount)),
      transfers := s.transfers ++ [⟨.payout, token, self, beneficiary, amount⟩] }) :
    Deposited ledger t := by
  obtain ⟨rfl, hmature⟩ := claimable_single h.count_eq hclaimable (by omega)
  have hrange := h.range token
  have hin : InI128 (unclaimed s token - amount) := by
    unfold InI128 at hrange ⊢
    omega
  have hunclaimed : ∀ other, unclaimed t other =
      if token = other then unclaimed s token - amount else unclaimed s other := by
    intro other
    rw [← saturate_of_inI128 hin]
    exact unclaimed_update (by rw [ht]; rfl) other
  subst ht
  refine ⟨⟨h.plain.staking, h.plain.tranches⟩, h.started, h.count_eq,
    schedule_concat_of_none h.schedule rfl, nonneg_concat h.nonneg (le_of_lt hpos), fun other => ?_,
    fun _ other => ?_, h.paid_payout_le hactive hamount fun r hr => (hmature r hr).trans hle,
    fun hother => absurd hactive hother⟩
  · rw [hunclaimed other]
    split
    · exact ⟨by omega, hin⟩
    · exact h.range other
  · rw [held_concat, held_payout, h.held_eq hactive other, hunclaimed other]
    split
    · next hsame =>
      subst hsame
      rfl
    · rw [neg_zero, add_zero]

theorem exec_deposited (hs : Deposited ledger s) (hi : SafeDeposit s i) (hle : i.sequence ≤ ledger)
    (h : exec self i s = .ok t) : Deposited ledger t := by
  unfold SafeDeposit at hi
  cases exec_move hs.plain h with
  | started hnone => exact absurd hnone hs.started
  | deposited token admin amount releaseLedger hcall hactive hpos hrange _ h =>
    rw [hcall] at hi
    exact hs.deposited hactive hpos hrange hi h
  | swept _ _ _ _ _ _ hcount =>
    rw [hs.count_eq] at hcount
    cases hcount
  | released token beneficiary releaseLedger amount hcall hactive _ _ _ hamount _ h =>
    rw [hcall] at hi
    obtain ⟨hwhole, hothers, hmature⟩ := hi
    rw [hamount] at hwhole
    exact hs.released hactive (Option.some.inj hwhole) hothers
      (fun r hr => (hmature r hr).trans hle) h
  | claimed token beneficiary amount claimable _ hactive hpos hclaimable hamount _ h =>
    exact hs.claimed_partially hactive hle hpos hclaimable hamount h
  | cancelled admin token amount refund hcall hactive htoken hamount hrefund _ h =>
    rw [hcall] at hi
    obtain ⟨hwhole, hothers⟩ := hi token htoken
    rw [hamount] at hwhole
    have hrefund : amount = refund := by
      unfold refundAmount at hrefund
      rw [hs.count_eq] at hrefund
      exact pure_eq_ok.mp hrefund
    subst hrefund
    exact hs.cancelled hactive (Option.some.inj hwhole) hothers h
  | reassigned _ _ h =>
    subst h
    exact { hs with plain := ⟨hs.plain.staking, hs.plain.tranches⟩ }
  | asked _ _ h =>
    rw [h]
    exact hs

/-- The payee of a release is not the timelock itself. -/
def PaysOutside (self : Address) (s : State) (i : Invocation) : Prop :=
  match i.call with
  | .release _ | .releasePartial _ _ => s.beneficiary ≠ some self
  | _ => True

/-- A timelock whose admin is someone else, and which never paid itself. -/
structure PayeesApart (contract : Address) (s : State) : Prop where
  admin : ∃ admin, s.admin = some admin ∧ admin ≠ contract
  log : ∀ x ∈ s.transfers, Outward contract x

theorem PayeesApart.admin_ne (h : PayeesApart self s) {admin : Address}
    (hadmin : s.admin = some admin) : admin ≠ self := by
  obtain ⟨admin', hadmin', hne⟩ := h.admin
  rw [hadmin] at hadmin'
  cases hadmin'
  exact hne

theorem PayeesApart.pays (h : PayeesApart self s) {x : Transfer Purpose} (hx : Outward self x)
    (hadmin : t.admin = s.admin) (hlog : t.transfers = s.transfers ++ [x]) : PayeesApart self t := by
  refine ⟨by rw [hadmin]; exact h.admin, ?_⟩
  rw [hlog]
  exact List.forall_mem_append.mpr ⟨h.log, List.forall_mem_singleton.mpr hx⟩

theorem exec_payeesApart (hs : Deposited ledger s) (hapart : PayeesApart self s)
    (hout : PaysOutside self s i) (h : exec self i s = .ok t) : PayeesApart self t := by
  unfold PaysOutside at hout
  cases exec_move hs.plain h with
  | started hnone => exact absurd hnone hs.started
  | deposited token admin amount releaseLedger _ _ _ _ hadmin h =>
    exact hapart.pays (outward_lock (hapart.admin_ne hadmin) releaseLedger amount.1) (by rw [h])
      (by rw [h])
  | swept _ _ _ _ _ _ hcount =>
    rw [hs.count_eq] at hcount
    cases hcount
  | released token beneficiary releaseLedger amount hcall _ _ _ _ _ hbeneficiary h =>
    rw [hcall] at hout
    have hne : beneficiary ≠ self := fun hsame => hout (by rw [hbeneficiary, hsame])
    exact hapart.pays (outward_payout hne amount) (by rw [h]) (by rw [h])
  | claimed token beneficiary amount claimable hcall _ _ _ _ hbeneficiary h =>
    rw [hcall] at hout
    have hne : beneficiary ≠ self := fun hsame => hout (by rw [hbeneficiary, hsame])
    exact hapart.pays (outward_payout hne amount.1) (by rw [h]) (by rw [h])
  | cancelled admin token amount refund _ _ _ _ _ hadmin h =>
    exact hapart.pays (outward_refund (hapart.admin_ne hadmin) refund) (by rw [h]) (by rw [h])
  | reassigned _ _ h =>
    subst h
    exact ⟨hapart.admin, hapart.log⟩
  | asked _ _ h =>
    rw [h]
    exact hapart

end Steps

theorem created_payeesApart {self admin token beneficiary : Address} {releaseLedger : ℕ}
    {amount : I128} {env : Env} {s : State}
    (h : initializeTimelock self env admin token beneficiary releaseLedger amount State.empty = .ok s)
    (hadmin : admin ≠ self) : PayeesApart self s := by
  simp only [initializeTimelock, callTransfer, recordTransfer_eq_ok, bind_eq_ok, pure_eq_ok] at h
  obtain ⟨_, _, _, _, _, _, _, _, _, ⟨_, rfl⟩, rfl⟩ := h
  exact ⟨⟨admin, rfl, hadmin⟩,
    List.forall_mem_singleton.mpr (outward_lock hadmin releaseLedger amount.1)⟩

theorem created_deposited {self admin token beneficiary : Address} {releaseLedger : ℕ}
    {amount : I128} {env : Env} {s : State}
    (h : initializeTimelock self env admin token beneficiary releaseLedger amount State.empty = .ok s)
    (ledger : ℕ) : Deposited ledger s := by
  simp only [initializeTimelock, callTransfer, recordTransfer_eq_ok, bind_eq_ok, rejectIf_eq_ok,
    pure_eq_ok, not_le] at h
  obtain ⟨_, _, _, hpos, _, _, _, _, _, ⟨_, rfl⟩, hs⟩ := h
  have htransfers : s.transfers = [⟨.lock releaseLedger, token, admin, self, amount.1⟩] := by
    rw [← hs]
    rfl
  have hunclaimed : ∀ other, unclaimed s other = if token = other then amount.1 else 0 := by
    intro other
    rw [← hs]
    simp only [unclaimed, storeLock, State.empty]
    by_cases hsame : token = other
    · subst hsame
      rw [Function.update_self, if_pos rfl, Option.getD_some]
    · rw [Function.update_of_ne (Ne.symm hsame), if_neg hsame, Option.getD_none]
  have hstate : s.state = some .active := by
    rw [← hs]
    rfl
  refine ⟨by rw [← hs]; exact ⟨rfl, rfl⟩, by simp [hstate], by rw [← hs]; rfl, ?_, ?_, fun other => ?_,
    fun _ other => ?_, fun other => ?_, fun hother => absurd hstate hother⟩
  · intro x hx r hpurpose
    rw [htransfers, List.mem_singleton] at hx
    subst hx
    cases hpurpose
    rw [← hs]
    exact Function.update_self ..
  · rw [htransfers]
    simp [le_of_lt hpos]
  · rw [hunclaimed other]
    split
    · exact ⟨le_of_lt hpos, amount.2⟩
    · exact ⟨le_refl 0, by decide⟩
  · rw [htransfers, held_lock, hunclaimed other]
  · have hmatured : 0 ≤ maturedLocks other ledger s.transfers := by
      rw [htransfers]
      exact sumOf_nonneg (by simp [le_of_lt hpos])
    have hpaid : paid other s.transfers = 0 := by
      rw [htransfers, paid_singleton, if_neg (by simp)]
    rw [hpaid]
    exact hmatured

/-- A timelock of several tokens, in any run of safe deposits, releases and cancellations:
    what was paid of a token never exceeds its matured locks, and a released or cancelled
    timelock has nothing left of what it took, if neither its admin nor the beneficiary it pays
    is the timelock itself. -/
theorem deposit_payouts (self admin token beneficiary : Address) (releaseLedger : ℕ) (amount : I128)
    (env : Env) (s : State)
    (hinit : exec self ⟨env, .initializeTimelock admin token beneficiary releaseLedger amount⟩
      State.empty = .ok s)
    (is : List Invocation) (hsafe : Along (exec self) SafeDeposit s is) :
    (∀ ledger, (∀ i ∈ is, i.sequence ≤ ledger) → ∀ other,
      paid other (run self s is).transfers ≤ maturedLocks other ledger (run self s is).transfers) ∧
    (admin ≠ self → Along (exec self) (PaysOutside self) s is →
      (run self s is).state = some .released ∨ (run self s is).state = some .cancelled →
      ∀ other, gain other self (run self s is).transfers = 0) := by
  have hrun : ∀ ledger, (∀ i ∈ is, i.sequence ≤ ledger) → Deposited ledger (run self s is) := by
    intro ledger hledger
    refine run_invariant_along (fun s i t hs hi hok => ?_) (created_deposited hinit ledger)
      (hsafe.and_forall hledger)
    exact exec_deposited hs hi.1 hi.2 hok
  refine ⟨fun ledger hledger => (hrun ledger hledger).paid_le, fun hadmin hout hdone other => ?_⟩
  have hledger := sequence_le_sum is
  have hapart : Deposited (is.map (·.sequence)).sum (run self s is) ∧
      PayeesApart self (run self s is) := by
    refine run_invariant_along
      (I := fun s => Deposited (is.map (·.sequence)).sum s ∧ PayeesApart self s)
      (fun s i t hs hi hok => ?_) ⟨created_deposited hinit _, created_payeesApart hinit hadmin⟩
      ((hsafe.and hout).and_forall hledger)
    exact ⟨exec_deposited hs.1 hi.1.1 hi.2 hok, exec_payeesApart hs.1 hs.2 hi.1.2 hok⟩
  rw [gain_eq_held hapart.2.log]
  refine (hrun _ hledger).settled ?_ other
  rcases hdone with hstate | hstate
  · simp [hstate]
  · simp [hstate]

def demoLocked : State :=
  run demoTimelock State.empty [⟨demoEnv 1, .initializeTimelock demoGrantor demoToken demoBeneficiary
    100 demoAmount⟩]

theorem deposit_payouts_demo :
    paid demoToken (run demoTimelock demoLocked [⟨demoEnv 100, .release demoToken⟩]).transfers ≤
      maturedLocks demoToken 100
        (run demoTimelock demoLocked [⟨demoEnv 100, .release demoToken⟩]).transfers ∧
    gain demoToken demoTimelock
      (run demoTimelock demoLocked [⟨demoEnv 100, .release demoToken⟩]).transfers = 0 := by
  have hsafe : Along (exec demoTimelock) SafeDeposit demoLocked
      [⟨demoEnv 100, .release demoToken⟩] := by
    refine ⟨⟨rfl, fun other hother => ?_, fun r hr => ?_⟩, trivial⟩
    · have hnone : demoLocked.lockedBalance other = none := Function.update_of_ne hother ..
      rw [unclaimed, hnone]
      rfl
    · cases hr
      exact le_refl _
  have hout : Along (exec demoTimelock) (PaysOutside demoTimelock) demoLocked
      [⟨demoEnv 100, .release demoToken⟩] := by
    refine ⟨fun hsame => ?_, trivial⟩
    cases hsame
  obtain ⟨hpaid, hempty⟩ := deposit_payouts demoTimelock demoGrantor demoToken demoBeneficiary 100
    ⟨100, by decide⟩ (demoEnv 1) demoLocked rfl [⟨demoEnv 100, .release demoToken⟩] hsafe
  exact ⟨hpaid 100 (by simp [demoEnv]) demoToken, hempty (by decide) hout (.inl rfl) demoToken⟩

def demoOther : Address := ⟨24⟩

def demoDeposit : Invocation := ⟨demoEnv 2, .deposit demoOther demoAmount 500⟩

def demoRelease : Invocation := ⟨demoEnv 100, .release demoOther⟩

/-- The beneficiary is the timelock itself. -/
def demoOwnBeneficiary : State :=
  run demoTimelock State.empty [⟨demoEnv 1, .initializeTimelock demoGrantor demoToken demoTimelock
    100 demoAmount⟩]

/-- A second token is locked until ledger 500 and released at ledger 100, and what the timelock
    has of the first token cannot be released any more. A timelock that is its own beneficiary
    keeps everything. -/
theorem deposit_released_early :
    (run demoTimelock demoLocked [demoDeposit, demoRelease]).state = some .released ∧
      paid demoOther (run demoTimelock demoLocked [demoDeposit, demoRelease]).transfers = 100 ∧
      maturedLocks demoOther 100
        (run demoTimelock demoLocked [demoDeposit, demoRelease]).transfers = 0 ∧
      gain demoToken demoTimelock
        (run demoTimelock demoLocked [demoDeposit, demoRelease]).transfers = 100 ∧
      (run demoTimelock demoOwnBeneficiary [⟨demoEnv 100, .release demoToken⟩]).state =
        some .released ∧
      gain demoToken demoTimelock
        (run demoTimelock demoOwnBeneficiary [⟨demoEnv 100, .release demoToken⟩]).transfers =
        100 := by
  decide +kernel

end SorobanKit.Timelock
