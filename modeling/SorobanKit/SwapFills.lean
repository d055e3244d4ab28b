import Mathlib.Tactic.Ring
import SorobanKit.SwapGuards

set_option autoImplicit false

/-!
# What the fills of a swap bring in

Every fill pays its share of the price, rounded down, so a swap that is filled in slices brings in
less than its price: for each fill less than one unit.
-/
namespace SorobanKit.Swap
open CommonMath HostInteger HostInvocation HostTransfers

/-- The swap that a transfer trades in. -/
def Purpose.traded : Purpose → Option ℕ
  | .payment k | .proceeds k | .referral k | .fee k | .fill k => some k
  | .escrow _ | .refund _ => none

section Accounts
variable (house : Address) (k : ℕ) (swap : SwapInfo) (log : List (Transfer Purpose))

/-- What takers have paid to the contract. -/
def paidIn : ℤ :=
  sumOf (fun x => x.purpose = .payment k ∧ x.token = swap.tokenB ∧ x.target = house) log

/-- The maker's part and the fees. -/
def passedOn : ℤ :=
  sumOf (fun x => x.token = swap.tokenB ∧
    (x.purpose = .proceeds k ∨ x.purpose = .referral k ∨ x.purpose = .fee k)) log

def fills : ℕ := log.countP fun x => x.purpose = .fill k

/-- What the fills leave unpaid, in parts of which a unit has `amount_a`. -/
def shortfall : ℤ :=
  (log.map fun x => if x.purpose = .fill k then x.amount * swap.amountB % swap.amountA else 0).sum

structure Account : Prop where
  offered : 0 < swap.amountA
  sold : swap.state = .executed → swap.remainingAmount = 0
  exact : paidIn house k swap log * swap.amountA + shortfall k swap log =
    swap.filledAmount * swap.amountB
  passed : passedOn k swap log = paidIn house k swap log
  short : 0 ≤ shortfall k swap log ∧ shortfall k swap log ≤ fills k log * (swap.amountA - 1)
  begun : fills k log = 0 → swap.filledAmount = 0

def Unrelated : Prop := ∀ x ∈ log, x.purpose.traded ≠ some k

end Accounts

section Logs
variable {house : Address} {k : ℕ} {swap : SwapInfo} {log new : List (Transfer Purpose)}

theorem paidIn_append : paidIn house k swap (log ++ new) =
    paidIn house k swap log + paidIn house k swap new := sumOf_append _ _ _

theorem passedOn_append :
    passedOn k swap (log ++ new) = passedOn k swap log + passedOn k swap new := sumOf_append _ _ _

theorem shortfall_append :
    shortfall k swap (log ++ new) = shortfall k swap log + shortfall k swap new := by
  unfold shortfall
  rw [List.map_append, List.sum_append]

theorem fills_append : fills k (log ++ new) = fills k log + fills k new := List.countP_append

theorem Unrelated.append (h : Unrelated k log) (hnew : Unrelated k new) : Unrelated k (log ++ new) := by
  intro x hx
  rcases List.mem_append.mp hx with hx | hx
  · exact h x hx
  · exact hnew x hx

theorem Unrelated.paidIn (h : Unrelated k log) : paidIn house k swap log = 0 := by
  refine sumOf_eq_zero fun x hx => decide_eq_false ?_
  rintro ⟨hpurpose, _⟩
  exact h x hx (by rw [hpurpose]; rfl)

theorem Unrelated.passedOn (h : Unrelated k log) : passedOn k swap log = 0 := by
  refine sumOf_eq_zero fun x hx => decide_eq_false ?_
  rintro ⟨_, hpurpose | hpurpose | hpurpose⟩ <;> exact h x hx (by rw [hpurpose]; rfl)

theorem Unrelated.unfilled (h : Unrelated k log) : ∀ x ∈ log, x.purpose ≠ .fill k := by
  intro x hx hpurpose
  exact h x hx (by rw [hpurpose]; rfl)

theorem shortfall_of_unfilled (h : ∀ x ∈ log, x.purpose ≠ .fill k) : shortfall k swap log = 0 := by
  refine List.sum_eq_zero fun y hy => ?_
  obtain ⟨x, hx, rfl⟩ := List.mem_map.mp hy
  exact if_neg (h x hx)

theorem fills_of_unfilled (h : ∀ x ∈ log, x.purpose ≠ .fill k) : fills k log = 0 := by
  refine List.countP_eq_zero.mpr fun x hx => ?_
  rw [decide_eq_true_eq]
  exact h x hx

theorem Account.append (h : Account house k swap log) (hnew : Unrelated k new) :
    Account house k swap (log ++ new) := by
  refine ⟨h.offered, h.sold, ?_, ?_, ?_, ?_⟩
  · rw [paidIn_append, shortfall_append, hnew.paidIn, shortfall_of_unfilled hnew.unfilled, add_zero,
      add_zero]
    exact h.exact
  · rw [paidIn_append, passedOn_append, hnew.paidIn, hnew.passedOn, add_zero, add_zero]
    exact h.passed
  · rw [shortfall_append, fills_append, shortfall_of_unfilled hnew.unfilled,
      fills_of_unfilled hnew.unfilled, add_zero, Nat.add_zero]
    exact h.short
  · rw [fills_append, fills_of_unfilled hnew.unfilled]
    exact h.begun

theorem Unrelated.account (h : Unrelated k log) (hoffered : 0 < swap.amountA)
    (hpending : swap.state = .pending) (hfilled : swap.filledAmount = 0) :
    Account house k swap log := by
  refine ⟨hoffered, fun hsold => ?_, ?_, ?_, ?_, fun _ => hfilled⟩
  · rw [hpending] at hsold
    cases hsold
  · rw [h.paidIn, shortfall_of_unfilled h.unfilled, hfilled, zero_mul, zero_mul, add_zero]
  · rw [h.paidIn, h.passedOn]
  · rw [shortfall_of_unfilled h.unfilled, fills_of_unfilled h.unfilled, Nat.cast_zero, zero_mul]
    exact ⟨Int.le_refl 0, Int.le_refl 0⟩

/-- What a fill of `amount` for `amountB` puts on the account. -/
structure Billed (house : Address) (k : ℕ) (swap : SwapInfo) (amount amountB : ℤ)
    (log : List (Transfer Purpose)) : Prop where
  price : fillAmountB swap amount = .ok amountB
  paid : paidIn house k swap log = amountB
  passed : passedOn k swap log = amountB
  short : shortfall k swap log = amount * swap.amountB % swap.amountA
  once : fills k log = 1
  own : ∀ x ∈ log, x.purpose.traded = some k

theorem fillAmountB_eq {amount amountB : ℤ} (hoffered : 0 < swap.amountA)
    (h : fillAmountB swap amount = .ok amountB) :
    amountB * swap.amountA + amount * swap.amountB % swap.amountA = amount * swap.amountB := by
  have hpaid := (fillAmountB_ok h).1
  simp only [fillAmountB, bind_eq_ok, okOr_eq_ok, pure_eq_ok] at h
  obtain ⟨_, hdiv, _, _, rfl⟩ := h
  have hshare := mulDiv_toOption hdiv
  have hnonneg : 0 ≤ amount * swap.amountB := by
    by_contra hneg
    have hopposite := Int.tdiv_nonneg (a := -(amount * swap.amountB)) (by omega) hoffered.le
    rw [Int.neg_tdiv] at hopposite
    omega
  rw [hshare, Int.tdiv_eq_ediv_of_nonneg hnonneg]
  exact Int.ediv_mul_add_emod _ _

theorem Account.fill {amount amountB : ℤ} (h : Account house k swap log)
    (hpending : swap.state = .pending) (hbill : Billed house k swap amount amountB new) :
    Account house k (filled swap amount) (log ++ new) := by
  have hshare := fillAmountB_eq h.offered hbill.price
  have hremainder := Int.emod_nonneg (amount * swap.amountB) h.offered.ne'
  have hless := Int.emod_lt_of_pos (amount * swap.amountB) h.offered
  refine ⟨h.offered, fun hsold => ?_, ?_, ?_, ?_, fun hnone => ?_⟩
  · unfold filled at hsold ⊢
    dsimp only at hsold ⊢
    split at hsold
    · assumption
    · rw [hpending] at hsold
      cases hsold
  · change paidIn house k swap (log ++ new) * swap.amountA + shortfall k swap (log ++ new) =
      (swap.filledAmount + amount) * swap.amountB
    rw [paidIn_append, shortfall_append, hbill.paid, hbill.short, add_mul, add_mul, ← h.exact]
    omega
  · change passedOn k swap (log ++ new) = paidIn house k swap (log ++ new)
    rw [passedOn_append, paidIn_append, h.passed, hbill.passed, hbill.paid]
  · change 0 ≤ shortfall k swap (log ++ new) ∧
      shortfall k swap (log ++ new) ≤ fills k (log ++ new) * (swap.amountA - 1)
    rw [shortfall_append, fills_append, hbill.short, hbill.once, Nat.cast_add, add_mul, Nat.cast_one,
      one_mul]
    have hshort := h.short
    omega
  · rw [fills_append, hbill.once] at hnone
    omega

end Logs

section Bills
variable {sha256 : Bytes32 → Bytes32} {house : Address} {ledger : Ledger} {env : Env} {s t : State}
  {k : ℕ} {swap : SwapInfo} {amount : ℤ}

theorem passedOn_positive {x : Transfer Purpose} (h : 0 ≤ x.amount) :
    passedOn k swap (positive x) = passedOn k swap [x] := by
  unfold positive
  split
  · rfl
  · have hzero : x.amount = 0 := by omega
    simp [passedOn, hzero]

theorem passedOn_feeLog {treasury : Address} {referrer : Option Address} {fee : ℤ} (hfee : 0 ≤ fee) :
    passedOn k swap (feeLog house k swap.tokenB treasury referrer fee) = fee := by
  unfold feeLog
  by_cases hpos : 0 < fee
  · rw [if_pos hpos]
    cases referrer with
    | none => simp [passedOn]
    | some referrer =>
      have hhalf : 0 ≤ fee.tdiv 2 ∧ fee.tdiv 2 ≤ fee := by
        rw [Int.tdiv_eq_ediv_of_nonneg hfee]
        omega
      dsimp only
      rw [passedOn_append, passedOn_positive hhalf.1, passedOn_positive (by dsimp only; omega)]
      simp [passedOn]
  · have hzero : fee = 0 := by omega
    rw [if_neg hpos, hzero]
    rfl

/-- The transfers go to the maker or into fees. -/
def Onward (k : ℕ) (log : List (Transfer Purpose)) : Prop :=
  ∀ x ∈ log, x.purpose = .proceeds k ∨ x.purpose = .referral k ∨ x.purpose = .fee k

theorem billed_of_onward {amountB : ℤ} {taker : Address} {x : Transfer Purpose}
    {onward : List (Transfer Purpose)} (hprice : fillAmountB swap amount = .ok amountB)
    (honward : Onward k onward) (hpassed : passedOn k swap onward = amountB)
    (hpurpose : x.purpose = .fill k) (hamount : x.amount = amount) :
    Billed house k swap amount amountB (payment house k swap taker amountB :: (onward ++ [x])) := by
  have hpaid : paidIn house k swap onward = 0 := by
    refine sumOf_eq_zero fun y hy => decide_eq_false fun h => ?_
    rcases honward y hy with hy | hy | hy <;> simp [hy] at h
  have hunfilled : ∀ y ∈ onward, y.purpose ≠ .fill k := by
    intro y hy h
    rcases honward y hy with hy | hy | hy <;> simp [hy] at h
  refine ⟨hprice, ?_, ?_, ?_, ?_, ?_⟩
  · rw [← List.singleton_append, paidIn_append, paidIn_append, hpaid]
    simp [paidIn, payment, hpurpose]
  · rw [← List.singleton_append, passedOn_append, passedOn_append, hpassed]
    simp [passedOn, payment, hpurpose]
  · rw [← List.singleton_append, shortfall_append, shortfall_append, shortfall_of_unfilled hunfilled]
    simp [shortfall, payment, hpurpose, hamount]
  · rw [← List.singleton_append, fills_append, fills_append, fills_of_unfilled hunfilled]
    simp [fills, payment, hpurpose]
  · intro y hy
    rcases List.mem_cons.mp hy with rfl | hy
    · rfl
    rcases List.mem_append.mp hy with hy | hy
    · rcases honward y hy with hy | hy | hy <;> rw [hy] <;> rfl
    · rw [List.mem_singleton.mp hy, hpurpose]
      rfl

theorem Executed.billed {taker : Address} {preimage : Option Bytes32} {referrer : Option Address}
    (h : Executed sha256 house env taker k amount preimage referrer swap s t)
    (hhonest : HonestReports ledger house env) (hhouse : house ∉ env.auths) :
    ∃ amountB log, Billed house k swap amount amountB log ∧ Fill env k swap amount log s t := by
  obtain ⟨_, feeBps, treasury, amountB, fee, _, _, hamountB, _, hnonneg, hcovered, hfill⟩ :=
    h.exact_fill hhonest hhouse
  refine ⟨amountB, _, billed_of_onward hamountB ?_ ?_ rfl rfl, hfill⟩
  · intro x hx
    rcases List.mem_append.mp hx with hx | hx
    · rw [eq_of_mem_positive hx]
      exact .inl rfl
    · exact .inr (feeLog_purpose hx)
  · rw [passedOn_append, passedOn_positive (by dsimp only [proceeds]; omega), passedOn_feeLog hnonneg]
    simp [passedOn, proceeds]

theorem fillSwapPartial_billed (h : fillSwapPartial house env k amount s = .ok t) :
    ∃ swap amountB log, Billed house k swap amount amountB log ∧ Fill env k swap amount log s t := by
  obtain ⟨swap, hpartial⟩ := fillSwapPartial_ok h
  obtain ⟨paid, hfill⟩ := hpartial.fill
  simp only [fillSwapPartial, getSwap, bind_eq_ok, okOr_eq_ok, pure_eq_ok] at h
  obtain ⟨_, _, stored, hstored, _, _, _, _, _, _, _, _, _, _, amountB, hprice, s₁, hpay, s₂, hproceeds,
    s₃, hdeliver, after, _, rfl⟩ := h
  have hsame : stored = swap := Option.some_inj.mp (hstored.symm.trans hfill.found)
  subst hsame
  have hlog := congrArg State.transfers hfill.result
  rw [recordTransfer_ok hpay] at hproceeds
  rw [recordTransfer_ok hproceeds] at hdeliver
  rw [recordTransfer_ok hdeliver] at hlog
  have hpaid : amountB = paid := by simpa [putSwap, payment, proceeds] using hlog
  subst hpaid
  have hbill : Billed house k stored amount amountB
      (payment house k stored stored.partyA amountB :: ([proceeds house k stored amountB] ++
        [⟨.fill k, stored.tokenA, house, stored.partyA, amount⟩])) := by
    refine billed_of_onward hprice (fun x hx => ?_) ?_ rfl rfl
    · rw [List.mem_singleton.mp hx]
      exact .inl rfl
    · simp [passedOn, proceeds]
  exact ⟨stored, amountB, _, hbill, hfill⟩

end Bills

section Ends
variable {sha256 : Bytes32 → Bytes32} {house : Address} {env : Env} {i : Invocation} {s t u : State}
  {k : ℕ} {swap : SwapInfo}

/-- What is executed in `t` was so in `s`. -/
def NoneSold (s t : State) : Prop :=
  ∀ k swap, t.swaps.lookup k = some swap → swap.state = .executed → s.swaps.lookup k = some swap

theorem NoneSold.trans (h : NoneSold s t) (hnext : NoneSold t u) : NoneSold s u :=
  fun k swap hk hsold => h k swap (hnext k swap hk hsold) hsold

theorem closeSwap_noneSold {swapId : ℕ} {remaining : ℤ} {state : SwapState}
    (h : closeSwap house env swapId swap remaining state s = .ok t) (hstate : state ≠ .executed) :
    NoneSold s t := by
  intro k other hk hsold
  rw [closeSwap_ok h, lookup_closed] at hk
  split at hk
  · cases hk
    exact absurd hsold hstate
  · exact hk

theorem closeUnfilled_noneSold {swapId : ℕ} {state : SwapState}
    (h : closeUnfilled house env swapId swap state s = .ok t) (hstate : state ≠ .executed) :
    NoneSold s t := by
  simp only [closeUnfilled, bind_eq_ok] at h
  obtain ⟨remaining, _, hclose⟩ := h
  exact closeSwap_noneSold hclose hstate

theorem cancelMany_noneSold {creator : Address} {swapIds : List ℕ}
    (h : swapIds.foldlM (cancelOne house env creator) s = .ok t) : NoneSold s t := by
  induction swapIds generalizing s with
  | nil =>
    rw [List.foldlM_nil, pure_eq_ok] at h
    subst h
    exact fun _ _ hk _ => hk
  | cons swapId swapIds ih =>
    rw [List.foldlM_cons] at h
    simp only [cancelOne, bind_eq_ok] at h
    obtain ⟨u, ⟨_, _, _, _, _, _, hclose⟩, hrest⟩ := h
    exact (closeSwap_noneSold hclose (by simp)).trans (ih hrest)

theorem ends_noneSold {swapIds : List ℕ} (h : exec sha256 house i s = .ok t)
    (hcall : (∃ swapId, swapIds = [swapId] ∧ i.call = .cancelSwap swapId) ∨
      (∃ creator, i.call = .cancelSwapsBatch creator swapIds) ∨
      (∃ swapId, swapIds = [swapId] ∧
        (i.call = .refundHashlockedSwap swapId ∨ i.call = .expireSwap swapId) ∧
        ∀ swap ∈ s.swaps.lookup swapId, swap.expiresAt < i.sequence)) : NoneSold s t := by
  rcases hcall with ⟨_, _, hcall⟩ | ⟨_, hcall⟩ | ⟨_, _, hcall | hcall, _⟩
  · simp only [exec, hcall, cancelSwap, bind_eq_ok] at h
    obtain ⟨_, _, _, _, _, _, _, _, hclose⟩ := h
    exact closeUnfilled_noneSold hclose (by simp)
  · simp only [exec, hcall, cancelSwapsBatch, bind_eq_ok] at h
    obtain ⟨_, _, _, _, hmany⟩ := h
    exact cancelMany_noneSold hmany
  · simp only [exec, hcall, refundHashlockedSwap, bind_eq_ok] at h
    obtain ⟨_, _, _, _, _, _, _, _, _, _, hclose⟩ := h
    exact closeSwap_noneSold hclose (by simp)
  · simp only [exec, hcall, expireSwap, bind_eq_ok] at h
    obtain ⟨_, _, _, _, _, _, hclose⟩ := h
    exact closeUnfilled_noneSold hclose (by simp)

end Ends

section Runs
variable {sha256 : Bytes32 → Bytes32} {house : Address} {ledger : Ledger} {i : Invocation}
  {s t : State} {k : ℕ} {swap : SwapInfo} {amount amountB : ℤ} {log : List (Transfer Purpose)}

/-- Every stored swap has its account, and the others have nothing to account for. -/
structure Booked (house : Address) (s : State) : Prop where
  regular : Regular s
  accounts : ∀ k swap, s.swaps.lookup k = some swap → Account house k swap s.transfers
  vacant : ∀ k, s.swaps.lookup k = none → Unrelated k s.transfers

theorem Booked.fill (hs : Booked house s) (ht : Regular t) {env : Env}
    (hbill : Billed house k swap amount amountB log) (h : Fill env k swap amount log s t) :
    Booked house t := by
  have htransfers : t.transfers = s.transfers ++ log := by rw [h.result]
  have hother : ∀ j, j ≠ k → Unrelated j log := by
    intro j hne x hx hsame
    rw [hbill.own x hx] at hsame
    exact hne (Option.some_inj.mp hsame).symm
  refine ⟨ht, fun j other hj => ?_, fun j hj => ?_⟩
  · rw [htransfers]
    rw [h.lookup_eq] at hj
    split at hj
    · next heq =>
      cases hj
      subst heq
      exact (hs.accounts j swap h.found).fill h.pending hbill
    · next hne => exact (hs.accounts j other hj).append (hother j hne)
  · rw [htransfers]
    rw [h.lookup_eq] at hj
    split at hj
    · cases hj
    · next hne => exact (hs.vacant j hj).append (hother j hne)

theorem Booked.relabel (hs : Booked house s) (ht : Regular t)
    (htransfers : t.transfers = s.transfers ++ log) (hquiet : ∀ k, Unrelated k log)
    (hsold : NoneSold s t)
    (horigin : ∀ k swap, t.swaps.lookup k = some swap →
      ∃ old state, s.swaps.lookup k = some old ∧ swap = { old with state := state })
    (hkept : ∀ k, t.swaps.lookup k = none → s.swaps.lookup k = none) : Booked house t := by
  refine ⟨ht, fun k swap hk => ?_, fun k hk => ?_⟩
  · rw [htransfers]
    refine Account.append ?_ (hquiet k)
    obtain ⟨old, state, hold, rfl⟩ := horigin k swap hk
    have haccount := hs.accounts k old hold
    refine ⟨haccount.offered, fun hstate => ?_, haccount.exact, haccount.passed, haccount.short,
      haccount.begun⟩
    exact (hs.accounts k _ (hsold k _ hk hstate)).sold hstate
  · rw [htransfers]
    exact (hs.vacant k (hkept k hk)).append (hquiet k)

/-- A new swap has an empty account, whether or not it is escrowed. -/
theorem Booked.propose (hs : Booked house s) (ht : Regular t) {env : Env} {terms : Terms}
    (h : Proposed house env terms swap s t) : Booked house t := by
  let log : List (Transfer Purpose) := if swap.escrowed then
    [⟨.escrow (s.swapCount.getD 0), terms.tokenA, terms.partyA, house, terms.amountA⟩] else []
  have htransfers : t.transfers = s.transfers ++ log := by rw [h.result]
  have hquiet : ∀ k, Unrelated k log := by
    intro k x hx
    dsimp only [log] at hx
    split at hx
    · rw [List.mem_singleton.mp hx]
      simp [Purpose.traded]
    · cases hx
  refine ⟨ht, fun k other hk => ?_, fun k hk => ?_⟩
  · rw [htransfers]
    refine Account.append ?_ (hquiet k)
    rw [h.lookup_eq] at hk
    split at hk
    · next heq =>
      cases hk
      have hfresh := hs.vacant _ hs.regular.fresh
      rw [← heq] at hfresh
      refine hfresh.account ?_ h.fresh.1 h.fresh.2.1
      rw [h.terms_eq.2.2]
      exact h.positive
    · exact hs.accounts k other hk
  · rw [htransfers]
    rw [h.lookup_eq] at hk
    split at hk
    · cases hk
    · exact (hs.vacant k hk).append (hquiet k)

theorem Booked.close {swapIds : List ℕ} (hs : Booked house s) (ht : Regular t)
    (h : Closes house swapIds s t) (hsold : NoneSold s t) : Booked house t := by
  obtain ⟨log, htransfers, hback, _⟩ := h.log hs.regular.sound
  refine hs.relabel ht htransfers (fun k x hx => ?_) hsold (fun k other hk => ?_) fun k hk => ?_
  · obtain ⟨_, _, _, _, hpurpose, _⟩ := hback x hx
    rw [hpurpose]
    simp [Purpose.traded]
  · by_cases hmem : k ∈ swapIds
    · obtain ⟨old, state, hold, _, hnew, _⟩ := (h.lookup_eq k).2 hmem
      rw [hk] at hnew
      cases hnew
      exact ⟨old, state, hold, rfl⟩
    · rw [(h.lookup_eq k).1 hmem] at hk
      exact ⟨other, other.state, hk, rfl⟩
  · by_cases hmem : k ∈ swapIds
    · obtain ⟨_, _, _, _, hnew, _⟩ := (h.lookup_eq k).2 hmem
      rw [hk] at hnew
      cases hnew
    · rw [← (h.lookup_eq k).1 hmem]
      exact hk

theorem Booked.step (hs : Booked house s) (hi : Honest ledger house i)
    (h : exec sha256 house i s = .ok t) : Booked house t := by
  have ht := hs.regular.step h
  cases exec_move h with
  | configured call swaps transfers config =>
    rw [← List.append_nil s.transfers] at transfers
    refine hs.relabel ht transfers (fun _ _ hx => by cases hx) (fun k swap hk _ => ?_)
      (fun k swap hk => ?_) fun k hk => ?_
    · rw [← swaps]
      exact hk
    · rw [swaps] at hk
      exact ⟨swap, swap.state, hk, rfl⟩
    · rw [← swaps]
      exact hk
  | proposed terms swap call proposed => exact hs.propose ht proposed
  | executed taker swapId amount preimage referrer swap call executed =>
    obtain ⟨amountB, log, hbill, hfill⟩ := executed.billed hi.reports hi.absent
    exact hs.fill ht hbill hfill
  | filled swapId amount swap call filled =>
    simp only [exec, call] at h
    obtain ⟨swap, amountB, log, hbill, hfill⟩ := fillSwapPartial_billed h
    exact hs.fill ht hbill hfill
  | closed swapIds closes call => exact hs.close ht closes (ends_noneSold h call)

theorem booked_empty (house : Address) : Booked house {} :=
  ⟨regular_empty, fun _ _ hk => (by cases hk), fun _ _ _ hx => by cases hx⟩

theorem booked_run (is : List Invocation) (hhonest : ∀ i ∈ is, Honest ledger house i) :
    Booked house (run sha256 house is) := by
  have hcalls : HostRuns.Along (exec sha256 house) (fun _ i => Honest ledger house i) {} is :=
    ((HostRuns.along_true _ _ _).and_forall hhonest).mono fun _ _ h => h.2
  exact HostRuns.run_invariant_along (fun _ _ _ hs hi h => hs.step hi h) (booked_empty house) hcalls

/-- A swap that is filled brought in its price, but for less than one unit a fill. -/
theorem Account.whole (h : Account house k swap log) (hfilled : swap.filledAmount = swap.amountA) :
    paidIn house k swap log ≤ swap.amountB ∧ swap.amountB < paidIn house k swap log + fills k log := by
  have hexact := h.exact
  obtain ⟨hnonneg, hbound⟩ := h.short
  rw [hfilled, mul_comm swap.amountA] at hexact
  have hcount : fills k log ≠ 0 := by
    intro hnone
    have hbegun := h.begun hnone
    have hoffered := h.offered
    omega
  constructor
  · refine Int.le_of_mul_le_mul_right ?_ h.offered
    omega
  · refine Int.lt_of_mul_lt_mul_right ?_ h.offered.le
    rw [add_mul]
    rw [mul_sub, mul_one] at hbound
    omega

/-- What takers paid in falls short of the price of what is filled by the remainders of the fills, and
    an executed swap brings in more than its price less one unit a fill. -/
theorem fills_rounded_down (sha256 : Bytes32 → Bytes32) (house : Address) (ledger : Ledger)
    (is : List Invocation) (hhonest : ∀ i ∈ is, Honest ledger house i) {k : ℕ} {swap : SwapInfo}
    (hfound : (run sha256 house is).swaps.lookup k = some swap) :
    let log := (run sha256 house is).transfers
    paidIn house k swap log * swap.amountA + shortfall k swap log =
        swap.filledAmount * swap.amountB ∧
      passedOn k swap log = paidIn house k swap log ∧
      0 ≤ shortfall k swap log ∧ shortfall k swap log ≤ fills k log * (swap.amountA - 1) ∧
      (swap.state = .executed → paidIn house k swap log ≤ swap.amountB ∧
        swap.amountB < paidIn house k swap log + fills k log ∧
        (fills k log = 1 → paidIn house k swap log = swap.amountB)) := by
  have hs : Booked house (run sha256 house is) := booked_run is hhonest
  have haccount := hs.accounts k swap hfound
  obtain ⟨hnonneg, hbound⟩ := haccount.short
  refine ⟨haccount.exact, haccount.passed, hnonneg, hbound, fun hsold => ?_⟩
  have hsplit := (hs.regular.sound k swap hfound).split
  rw [haccount.sold hsold, add_zero] at hsplit
  obtain ⟨hle, hlt⟩ := haccount.whole hsplit
  exact ⟨hle, hlt, fun hone => by omega⟩

end Runs

/-- Three for four, without a fee. -/
def demoSliced : List (ℕ × Call) :=
  [(1, .initializeSwaps demoAdmin demoTreasury 0),
    (2, .proposeSwapWithOptions ⟨demoMaker, demoTokenA, 3, demoTokenB, 4, 50, none, none⟩ true true none),
    (3, .executeSwap demoTaker 0 1 none none), (4, .acceptSwap demoOther 0 1),
    (5, .executeSwap demoTaker 0 1 none none)]

/-- The swap as its last fill leaves it. -/
def demoSold : SwapInfo where
  id := 0
  partyA := demoMaker
  tokenA := demoTokenA
  amountA := 3
  tokenB := demoTokenB
  amountB := 4
  expiresAt := 50
  state := .executed
  filledAmount := 3
  remainingAmount := 0
  allowPartialFills := true
  escrowed := true
  allowedCounterparty := none
  maxExecutionDelay := none
  createdAt := 2
  hashLock := none

theorem demoSliced_honest : ∀ i ∈ demoRun demoSliced, Honest demoLedger demoHouse i :=
  demo_honest (by simp [demoSliced, Call.Fits, InI128])

theorem demoSliced_sold :
    (run id demoHouse (demoRun demoSliced)).swaps.lookup 0 = some demoSold := by decide +kernel

/-- One by one, the takers pay a unit less than the price. -/
theorem fills_rounded_down_demo :
    (∃ swap, (run id demoHouse (demoRun demoSliced)).swaps.lookup 0 = some swap ∧
      swap.state = .executed) ∧
    demoSold.amountB < paidIn demoHouse 0 demoSold (run id demoHouse (demoRun demoSliced)).transfers +
      fills 0 (run id demoHouse (demoRun demoSliced)).transfers := by
  have hrounded := fills_rounded_down id demoHouse demoLedger (demoRun demoSliced) demoSliced_honest
    demoSliced_sold
  exact ⟨⟨demoSold, demoSliced_sold, rfl⟩, (hrounded.2.2.2.2 rfl).2.1⟩

/-- The maker is promised four units and gets three. -/
theorem sliced_swap_below_price :
    (∀ i ∈ demoRun demoSliced, Honest demoLedger demoHouse i) ∧
    (run id demoHouse (demoRun demoSliced)).swaps.lookup 0 = some demoSold ∧
    demoSold.state = .executed ∧
    paidIn demoHouse 0 demoSold (run id demoHouse (demoRun demoSliced)).transfers = 3 ∧
    ¬ demoSold.filledAmount * demoSold.amountB ≤
      paidIn demoHouse 0 demoSold (run id demoHouse (demoRun demoSliced)).transfers *
        demoSold.amountA ∧
    ¬ demoSold.amountB ≤
      paidIn demoHouse 0 demoSold (run id demoHouse (demoRun demoSliced)).transfers :=
  ⟨demoSliced_honest, by decide +kernel⟩

end SorobanKit.Swap
