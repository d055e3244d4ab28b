import SorobanKit.SwapMoves

set_option autoImplicit false

/-!
# The escrow of pending swaps

The contract should hold, of every token, what is left of the pending swaps that are escrowed in it.
What it holds beyond that is its surplus: a fee that is paid to the contract itself adds to it, and
`fill_swap_partial`, which pays a swap that was never escrowed from the pool, takes from it.
-/
namespace SorobanKit.Swap
open CommonMath HostInteger HostInvocation HostTransfers
open HostBalances (sumBy part sumBy_insert part_of_lookup part_of_none part_le_sumBy)
open HostRuns (Entry)

def stake (token : Address) (_ : ℕ) (swap : SwapInfo) : ℤ :=
  if swap.escrowed ∧ swap.state = .pending ∧ swap.tokenA = token then swap.remainingAmount else 0

def held (token : Address) (s : State) : ℤ := sumBy (stake token) s.swaps

def surplus (token house : Address) (s : State) : ℤ := gain token house s.transfers - held token s

section Stakes
variable {token house : Address} {s t : State} {swapId : ℕ} {swap after : SwapInfo}
  {log : List (Transfer Purpose)}

theorem surplus_write (hswaps : t.swaps = s.swaps.insert swapId after)
    (hlog : t.transfers = s.transfers ++ log) :
    surplus token house t = surplus token house s + gain token house log +
      part (stake token) s.swaps swapId - stake token swapId after := by
  unfold surplus held
  rw [hswaps, hlog, gain_append, sumBy_insert]
  omega

/-- What an amount out of an escrow weighs. -/
def drawn (token : Address) (swap : SwapInfo) (amount : ℤ) : ℤ :=
  if swap.escrowed ∧ swap.tokenA = token then amount else 0

theorem stake_pending (h : swap.state = .pending) :
    stake token swapId swap = drawn token swap swap.remainingAmount := by
  simp [stake, drawn, h]

theorem stake_closed (h : swap.state ≠ .pending) : stake token swapId swap = 0 := by
  simp [stake, h]

theorem stake_filled {amount : ℤ} (h : swap.state = .pending) :
    stake token swapId (filled swap amount) =
      stake token swapId swap - drawn token swap amount := by
  rw [stake_pending h]
  by_cases hrest : swap.remainingAmount - amount = 0
  · -- the last fill closes the swap
    have hstate : (filled swap amount).state ≠ .pending := by simp [filled, hrest]
    rw [stake_closed hstate]
    unfold drawn
    split <;> omega
  · have hstate : (filled swap amount).state = .pending := by simp [filled, hrest, h]
    rw [stake_pending hstate]
    change drawn token swap (swap.remainingAmount - amount) = _
    unfold drawn
    split <;> omega

end Stakes

section Fees
variable {token house tokenB treasury target : Address} {referrer : Option Address} {swapId : ℕ}
  {fee amountB : ℤ} {feeBps : ℕ}

/-- What comes back of an amount that the contract pays. -/
def kept (house target : Address) (amount : ℤ) : ℤ := if target = house then amount else 0

/-- What the contract pays to itself of a fee. -/
def keptFee (house treasury : Address) (referrer : Option Address) (fee : ℤ) : ℤ :=
  match referrer with
  | some referrer => kept house referrer (fee.tdiv 2) + kept house treasury (fee - fee.tdiv 2)
  | none => kept house treasury fee

theorem gain_paid (purpose : Purpose) (paid target : Address) (amount : ℤ) :
    gain token house [⟨purpose, paid, house, target, amount⟩] =
      if paid = token then kept house target amount - amount else 0 := by
  by_cases htarget : target = house
  · subst htarget
    by_cases hpaid : paid = token
    · rw [hpaid, gain_to_itself, if_pos rfl, kept, if_pos rfl, sub_self]
    · rw [gain_other_token hpaid, if_neg hpaid]
  · rw [gain_outgoing_ite _ _ _ htarget, kept, if_neg htarget, zero_sub]

theorem gain_positive {x : Transfer Purpose} (h : 0 ≤ x.amount) :
    gain token house (positive x) = gain token house [x] := by
  unfold positive
  split
  · rfl
  · have hzero : x.amount = 0 := by omega
    simp [gain, received, sent, hzero]

theorem gain_feeLog (hfee : 0 ≤ fee) :
    gain token house (feeLog house swapId tokenB treasury referrer fee) =
      if tokenB = token then keptFee house treasury referrer fee - fee else 0 := by
  unfold feeLog
  by_cases hpos : 0 < fee
  · rw [if_pos hpos]
    cases referrer with
    | none => exact gain_paid _ _ _ _
    | some referrer =>
      have hhalf : 0 ≤ fee.tdiv 2 ∧ fee.tdiv 2 ≤ fee := by
        rw [Int.tdiv_eq_ediv_of_nonneg hfee]
        omega
      dsimp only
      rw [gain_append, gain_positive hhalf.1, gain_positive (by dsimp only; omega), gain_paid,
        gain_paid, keptFee]
      split <;> omega
  · have hzero : fee = 0 := by omega
    subst hzero
    cases referrer <;> simp [keptFee, kept]

theorem fee_bounds (h : calculateAndValidateFee amountB feeBps = .ok fee) (hamount : 0 ≤ amountB) :
    0 ≤ fee ∧ fee ≤ amountB := by
  unfold calculateAndValidateFee at h
  simp only [ite_eq_ok, bind_eq_ok, okOr_eq_ok, rejectIf_eq_ok, pure_eq_ok] at h
  rcases h with ⟨_, rfl⟩ | ⟨_, raw, hraw, _, hcovered, rfl⟩
  · omega
  · have hproduct : 0 ≤ amountB * feeBps := Int.mul_nonneg hamount (Int.natCast_nonneg feeBps)
    have hrawNonneg : 0 ≤ raw := by
      rw [mulDiv_toOption hraw, bpsDenominator, Int.tdiv_eq_ediv_of_nonneg hproduct]
      omega
    split_ifs at hcovered ⊢ <;> omega

end Fees

section Moves
variable {token house : Address} {ledger : Ledger} {env : Env} {s t : State} {swapId : ℕ}
  {swap other : SwapInfo} {amount : ℤ}

/-- A record whose maker is not the contract, of an amount that fits. -/
structure Backed (house : Address) (swap : SwapInfo) : Prop extends Sound swap where
  maker : swap.partyA ≠ house
  fits : InI128 swap.remainingAmount

theorem Backed.succeeds (h : Backed house swap) (hnext : Succeeds swap other) :
    Backed house other := by
  refine ⟨h.toSound.succeeds hnext, ?_, ?_⟩
  · cases hnext <;> exact h.maker
  · cases hnext with
    | same => exact h.fits
    | filled amount covered fits => exact fits
    | closed state final => exact h.fits

/-- The tokens answer for the contract what it has. -/
def HonestReports (ledger : Ledger) (house : Address) (env : Env) : Prop :=
  ∀ log token, env.reported log token = replay ledger log token house

theorem Fill.surplus {log : List (Transfer Purpose)} (h : Fill env swapId swap amount log s t) :
    surplus token house t =
      Swap.surplus token house s + gain token house log + drawn token swap amount := by
  have hswaps : t.swaps = s.swaps.insert swapId (filled swap amount) := by
    rw [h.result]
    rfl
  have hlog : t.transfers = s.transfers ++ log := by rw [h.result]
  rw [surplus_write hswaps hlog, part_of_lookup h.found, stake_filled h.pending]
  omega

theorem gain_delivery {taker : Address} (htaker : taker ≠ house) (hmaker : swap.partyA ≠ house) :
    gain token house [delivery house swapId swap taker amount] = -drawn token swap amount := by
  unfold delivery drawn
  cases hescrowed : swap.escrowed with
  | true =>
    simp only [if_true, true_and]
    rw [gain_outgoing_ite _ _ _ htaker]
    split <;> omega
  | false => simp [gain, received, sent, htaker, hmaker]

theorem received_payment {taker tokenB : Address} {amountB : ℤ} {log : List (Transfer Purpose)}
    (hhonest : HonestReports ledger house env) (htaker : taker ≠ house) (hfits : InI128 amountB) :
    saturatingSub (env.reported (log ++ [⟨.payment swapId, tokenB, taker, house, amountB⟩]) tokenB)
      (env.reported log tokenB) = amountB := by
  have hgain : gain tokenB house [⟨Purpose.payment swapId, tokenB, taker, house, amountB⟩] =
      amountB := gain_incoming _ _ htaker
  rw [hhonest, hhonest, replay_eq_gain, replay_eq_gain, gain_append, hgain, saturatingSub]
  have hdiff : ledger tokenB house + (gain tokenB house log + amountB) -
      (ledger tokenB house + gain tokenB house log) = amountB := by omega
  rw [hdiff, saturate_of_inI128 hfits]

/-- With tokens that report what the contract has it receives all of the payment, so both fees of a
    fill are the same. -/
theorem Executed.exact_fill {sha256 : Bytes32 → Bytes32} {taker : Address} {preimage : Option Bytes32}
    {referrer : Option Address}
    (h : Executed sha256 house env taker swapId amount preimage referrer swap s t)
    (hhonest : HonestReports ledger house env) (hhouse : house ∉ env.auths) :
    taker ≠ house ∧ ∃ feeBps treasury amountB fee, s.feeBps = some feeBps ∧ s.treasury = some treasury ∧
      fillAmountB swap amount = .ok amountB ∧ calculateAndValidateFee amountB feeBps = .ok fee ∧
      0 ≤ fee ∧ fee ≤ amountB ∧
      Fill env swapId swap amount (payment house swapId swap taker amountB ::
        (Swap.positive (proceeds house swapId swap (amountB - fee)) ++
          feeLog house swapId swap.tokenB treasury referrer fee ++
            [delivery house swapId swap taker amount])) s t := by
  obtain ⟨feeBps, treasury, amountB, fee, received, actualFee, hbps, htreasury, hamountB, hfee,
    hreceived, hactual, hfill⟩ := h.fill
  have htaker : taker ≠ house := fun heq => hhouse (heq ▸ h.auth)
  obtain ⟨hpositive, hfits⟩ := fillAmountB_ok hamountB
  rw [payment, received_payment hhonest htaker hfits] at hreceived
  subst hreceived
  have hsame : actualFee = fee := Except.ok.inj (hactual.symm.trans hfee)
  subst hsame
  obtain ⟨hnonneg, hcovered⟩ := fee_bounds hfee (by omega)
  exact ⟨htaker, feeBps, treasury, received, actualFee, hbps, htreasury, hamountB, hfee, hnonneg,
    hcovered, hfill⟩

theorem Executed.surplus {sha256 : Bytes32 → Bytes32} {taker : Address} {preimage : Option Bytes32}
    {referrer : Option Address}
    (h : Executed sha256 house env taker swapId amount preimage referrer swap s t)
    (hhonest : HonestReports ledger house env) (hhouse : house ∉ env.auths)
    (hmaker : swap.partyA ≠ house) :
    ∃ feeBps treasury amountB fee, s.feeBps = some feeBps ∧ s.treasury = some treasury ∧
      fillAmountB swap amount = .ok amountB ∧ calculateAndValidateFee amountB feeBps = .ok fee ∧
      ∀ token, surplus token house t = Swap.surplus token house s +
        if swap.tokenB = token then keptFee house treasury referrer fee else 0 := by
  obtain ⟨htaker, feeBps, treasury, amountB, fee, hbps, htreasury, hamountB, hfee, hnonneg, hcovered,
    hfill⟩ := h.exact_fill hhonest hhouse
  refine ⟨feeBps, treasury, amountB, fee, hbps, htreasury, hamountB, hfee, fun token => ?_⟩
  have hpay : gain token house [payment house swapId swap taker amountB] =
      if swap.tokenB = token then amountB else 0 := gain_incoming_ite _ _ _ htaker
  have hproceeds : gain token house (positive (proceeds house swapId swap (amountB - fee))) =
      if swap.tokenB = token then -(amountB - fee) else 0 := by
    rw [gain_positive (by dsimp only [proceeds]; omega)]
    exact gain_outgoing_ite _ _ _ hmaker
  rw [hfill.surplus, gain_cons, gain_append, gain_append, hpay, hproceeds,
    gain_feeLog hnonneg, gain_delivery htaker hmaker]
  split <;> omega

theorem FilledPartially.surplus (h : FilledPartially house env swapId amount swap s t)
    (hhouse : house ∉ env.auths) :
    surplus token house t = Swap.surplus token house s -
      if swap.escrowed = false ∧ swap.tokenA = token then amount else 0 := by
  obtain ⟨amountB, hfill⟩ := h.fill
  have hmaker : swap.partyA ≠ house := fun heq => hhouse (heq ▸ h.auth)
  have hthrough : gain token house [payment house swapId swap swap.partyA amountB,
      proceeds house swapId swap amountB,
      ⟨.fill swapId, swap.tokenA, house, swap.partyA, amount⟩] =
        if swap.tokenA = token then -amount else 0 := by
    rw [gain_cons _ [_, _], gain_cons _ [_], payment, proceeds, gain_incoming_ite _ _ _ hmaker,
      gain_outgoing_ite _ _ _ hmaker, gain_outgoing_ite _ _ _ hmaker]
    split <;> omega
  rw [hfill.surplus, hthrough]
  unfold drawn
  cases swap.escrowed <;> simp <;> split <;> omega

theorem Proposed.surplus {terms : Terms} (h : Proposed house env terms swap s t)
    (hfresh : s.swaps.lookup (s.swapCount.getD 0) = none) (hhouse : house ∉ env.auths) :
    surplus token house t = Swap.surplus token house s := by
  have hmaker : terms.partyA ≠ house := fun heq => hhouse (heq ▸ h.auth)
  obtain ⟨_, htoken, _⟩ := h.terms_eq
  obtain ⟨hpending, _, hremaining⟩ := h.fresh
  have hswaps : t.swaps = s.swaps.insert (s.swapCount.getD 0) swap := by
    rw [h.result]
    rfl
  have hlog : t.transfers = s.transfers ++ if swap.escrowed then
      [⟨.escrow (s.swapCount.getD 0), terms.tokenA, terms.partyA, house, terms.amountA⟩]
        else [] := by rw [h.result]
  rw [surplus_write hswaps hlog, part_of_none hfresh, stake_pending hpending, drawn, htoken,
    hremaining]
  cases swap.escrowed with
  | true =>
    simp only [if_true, true_and]
    rw [gain_incoming_ite _ _ _ hmaker]
    omega
  | false => simp

theorem Closes.surplus {swapIds : List ℕ} (h : Closes house swapIds s t)
    (hs : ∀ k swap, s.swaps.lookup k = some swap → Backed house swap) :
    surplus token house t = Swap.surplus token house s := by
  induction h with
  | nil s => rfl
  | cons swap remaining state found pending final rest next ih =>
    rename_i swapId swapIds s u
    have hback := hs _ _ found
    have hone : Swap.surplus token house (closed house swapId swap remaining state s) =
        Swap.surplus token house s := by
      have hswaps : (closed house swapId swap remaining state s).swaps =
          s.swaps.insert swapId { swap with state := state } := rfl
      rw [surplus_write hswaps rfl, part_of_lookup found, stake_pending pending, stake_closed final]
      unfold refund drawn
      cases hescrowed : swap.escrowed with
      | false => simp
      | true =>
        have hsplit := hback.split
        have hrest : remaining = swap.remainingAmount := by
          rcases rest hescrowed with h | h <;> omega
        subst hrest
        simp only [if_true, true_and]
        rw [gain_positive hback.remaining, gain_outgoing_ite _ _ _ hback.maker]
        split <;> omega
    rw [ih, hone]
    intro k other hk
    rw [lookup_closed] at hk
    split at hk
    · cases hk
      exact hback.succeeds (.closed state final)
    · exact hs k other hk

end Moves

section Calls
variable {sha256 : Bytes32 → Bytes32} {house : Address} {ledger : Ledger} {i : Invocation}
  {s t : State}

/-- The swaps that a call names. -/
def Call.swapIds : Call → List ℕ
  | .acceptSwap _ swapId _ | .executeSwap _ swapId _ _ _ | .fillSwapPartial swapId _ => [swapId]
  | .cancelSwap swapId | .refundHashlockedSwap swapId | .expireSwap swapId => [swapId]
  | .cancelSwapsBatch _ swapIds => swapIds
  | _ => []

/-- The amount of a proposal is an `i128`. -/
def Call.Fits : Call → Prop
  | .proposeSwap terms | .proposeSwapWithOptions terms _ _ _ => InI128 terms.amountA
  | _ => True

/-- The fee of a fill, as far as there is one. -/
def quotedFee (swap : SwapInfo) (amount : ℤ) (s : State) : Result SwapError ℤ := do
  let feeBps ← okOr s.feeBps .notInitialized
  let amountB ← fillAmountB swap amount
  calculateAndValidateFee amountB feeBps

/-- The contract pays nothing of the fee to itself. -/
def PaysFee (house : Address) (swapId : ℕ) (amount : ℤ) (referrer : Option Address) (s : State) :
    Prop :=
  ∀ swap ∈ s.swaps.lookup swapId, ∀ treasury ∈ s.treasury,
    ∀ fee ∈ (quotedFee swap amount s).toOption, keptFee house treasury referrer fee = 0

/-- Partial fills are of escrowed swaps, and fees are paid to others. -/
def Frugal (house : Address) (s : State) (i : Invocation) : Prop :=
  match i.call with
  | .fillSwapPartial swapId _ => ∀ swap ∈ s.swaps.lookup swapId, swap.escrowed = true
  | .acceptSwap _ swapId amount => PaysFee house swapId amount none s
  | .executeSwap _ swapId amount _ referrer => PaysFee house swapId amount referrer s
  | _ => True

instance {house : Address} {swapId : ℕ} {amount : ℤ} {referrer : Option Address} {s : State} :
    Decidable (PaysFee house swapId amount referrer s) :=
  inferInstanceAs (Decidable (∀ swap ∈ s.swaps.lookup swapId, ∀ treasury ∈ s.treasury,
    ∀ fee ∈ (quotedFee swap amount s).toOption, keptFee house treasury referrer fee = 0))

instance {house : Address} {s : State} {i : Invocation} : Decidable (Frugal house s i) := by
  unfold Frugal
  split <;> infer_instance

theorem paysFee_iff {swapId : ℕ} {amount : ℤ} {referrer : Option Address} {swap : SwapInfo}
    {feeBps : ℕ} {treasury : Address} {amountB fee : ℤ}
    (hfound : s.swaps.lookup swapId = some swap) (hbps : s.feeBps = some feeBps)
    (htreasury : s.treasury = some treasury) (hamountB : fillAmountB swap amount = .ok amountB)
    (hfee : calculateAndValidateFee amountB feeBps = .ok fee) :
    PaysFee house swapId amount referrer s ↔ keptFee house treasury referrer fee = 0 := by
  have hquote : quotedFee swap amount s = .ok fee := by
    simp only [quotedFee, bind_eq_ok, okOr_eq_ok]
    exact ⟨feeBps, hbps, amountB, hamountB, hfee⟩
  simp [PaysFee, hfound, htreasury, hquote, Except.toOption]

/-- What holds of a contract that does not authorize calls itself. -/
structure Kept (house : Address) (s : State) : Prop where
  regular : Regular s
  backed : ∀ k swap, s.swaps.lookup k = some swap → Backed house swap

/-- What a call gets from its host and from honest tokens. -/
structure Honest (ledger : Ledger) (house : Address) (i : Invocation) : Prop where
  absent : house ∉ i.auths
  reports : HonestReports ledger house i.toEnv
  fits : i.call.Fits

theorem Kept.step (hs : Kept house s) (hi : Honest ledger house i)
    (h : exec sha256 house i s = .ok t) : Kept house t := by
  refine ⟨hs.regular.step h, fun k other hk => ?_⟩
  rcases (exec_move h).origin hk with ⟨old, hold, hnext⟩ | ⟨_, terms, hpropose, hproposed⟩
  · exact (hs.backed k old hold).succeeds hnext
  · obtain ⟨hmaker, _, _⟩ := hproposed.terms_eq
    obtain ⟨_, _, hremaining⟩ := hproposed.fresh
    have hfits := hi.fits
    refine ⟨hproposed.sound, ?_, ?_⟩
    · rw [hmaker]
      exact fun heq => hi.absent (heq ▸ hproposed.auth)
    · rw [hremaining]
      rcases hpropose with hcall | ⟨_, _, _, hcall⟩
      · rw [hcall] at hfits
        exact hfits
      · rw [hcall] at hfits
        exact hfits

theorem surplus_kept_iff (hs : Kept house s) (hi : Honest ledger house i)
    (h : exec sha256 house i s = .ok t) :
    (∀ token, surplus token house t = surplus token house s) ↔ Frugal house s i := by
  cases exec_move h with
  | configured call swaps transfers config =>
    have hsame : ∀ token, surplus token house t = surplus token house s := by
      intro token
      unfold surplus held
      rw [swaps, transfers]
    have hfrugal : Frugal house s i := by
      unfold Frugal
      split <;> simp_all [Call.Manages]
    exact iff_of_true hsame hfrugal
  | proposed terms swap call proposed =>
    refine iff_of_true (fun token => proposed.surplus hs.regular.fresh hi.absent) ?_
    rcases call with hcall | ⟨_, _, _, hcall⟩ <;> simp only [Frugal, hcall]
  | executed taker swapId amount preimage referrer swap call executed =>
    obtain ⟨_, hfill⟩ := executed.filled
    obtain ⟨feeBps, treasury, amountB, fee, hbps, htreasury, hamountB, hfee, hsurplus⟩ :=
      executed.surplus hi.reports hi.absent (hs.backed _ _ hfill.found).maker
    have hfrugal : Frugal house s i ↔ PaysFee house swapId amount referrer s := by
      rcases call with hcall | ⟨hcall, _, rfl⟩ <;> simp only [Frugal, hcall]
    rw [hfrugal, paysFee_iff hfill.found hbps htreasury hamountB hfee]
    constructor
    · intro hkept
      have hone := hkept swap.tokenB
      rw [hsurplus, if_pos rfl] at hone
      omega
    · intro hzero token
      rw [hsurplus, hzero]
      split <;> omega
  | filled swapId amount swap call filled =>
    obtain ⟨_, hfill⟩ := filled.fill
    have hpos := hfill.positive
    have hfrugal : Frugal house s i ↔ swap.escrowed = true := by
      simp [Frugal, call, hfill.found]
    rw [hfrugal]
    constructor
    · intro hkept
      have hone := hkept swap.tokenA
      rw [filled.surplus hi.absent] at hone
      by_contra hnot
      rw [if_pos ⟨by simpa using hnot, rfl⟩] at hone
      omega
    · intro hescrowed token
      rw [filled.surplus hi.absent, if_neg (by simp [hescrowed])]
      omega
  | closed swapIds closes call =>
    refine iff_of_true (fun token => closes.surplus hs.backed) ?_
    rcases call with ⟨_, _, hcall⟩ | ⟨_, hcall⟩ | ⟨_, _, hcall | hcall, _⟩ <;>
      simp only [Frugal, hcall]

end Calls

section Solvency
variable {sha256 : Bytes32 → Bytes32} {house : Address} {ledger : Ledger} {i : Invocation}
  {s t : State}

/-- The contract has what is left of the escrowed swaps that are pending, records add up, and every
    maker can get the rest of an escrow back. -/
structure Solvent (ledger : Ledger) (house : Address) (s : State) : Prop where
  balance : ∀ token, replay ledger s.transfers token house = held token s
  records : ∀ k swap, s.swaps.lookup k = some swap →
    swap.filledAmount + swap.remainingAmount = swap.amountA ∧ 0 ≤ swap.remainingAmount
  refundable : ∀ k swap, s.swaps.lookup k = some swap → swap.state = .pending →
    swap.escrowed = true → ∀ env : Env, swap.partyA ∈ env.auths →
      env.tokens.Pays ledger s.transfers swap.tokenA house →
      ∃ t, cancelSwap house env k s = .ok t ∧ t.transfers = s.transfers ++
        [⟨.refund k, swap.tokenA, house, swap.partyA, swap.remainingAmount⟩]

/-- The transfers of one call. -/
def made (e : Entry State Invocation) : List (Transfer Purpose) :=
  e.after.transfers.drop e.before.transfers.length

/-- A call leaves the swaps that it does not name, and what the contract gains or loses in it is what
    the escrows of the others grew or shrank by. -/
structure Separate (house : Address) (e : Entry State Invocation) : Prop where
  others : ∀ k swap, e.before.swaps.lookup k = some swap → k ∉ e.invocation.call.swapIds →
    e.after.swaps.lookup k = some swap
  spent : ∀ token, gain token house (made e) = held token e.after - held token e.before

theorem stake_nonneg {token : Address} {k : ℕ} {swap : SwapInfo} (h : Sound swap) :
    0 ≤ stake token k swap := by
  have hremaining := h.remaining
  unfold stake
  split <;> omega

theorem Regular.covered {k : ℕ} {swap : SwapInfo} (hs : Regular s)
    (hfound : s.swaps.lookup k = some swap) (hpending : swap.state = .pending)
    (hescrowed : swap.escrowed = true) : swap.remainingAmount ≤ held swap.tokenA s := by
  have hpart := part_le_sumBy (f := stake swap.tokenA) (m := s.swaps)
    (fun k swap h => stake_nonneg (hs.sound k swap h)) k
  rw [part_of_lookup hfound, stake_pending hpending, drawn, if_pos ⟨hescrowed, rfl⟩] at hpart
  exact hpart

theorem cancelSwap_refunds {env : Env} {k : ℕ} {swap : SwapInfo} (hs : Kept house s)
    (hbalance : ∀ token, replay ledger s.transfers token house = held token s)
    (hfound : s.swaps.lookup k = some swap) (hpending : swap.state = .pending)
    (hescrowed : swap.escrowed = true) (hauth : swap.partyA ∈ env.auths)
    (hpays : env.tokens.Pays ledger s.transfers swap.tokenA house) :
    ∃ t, cancelSwap house env k s = .ok t ∧ t.transfers = s.transfers ++
      [⟨.refund k, swap.tokenA, house, swap.partyA, swap.remainingAmount⟩] := by
  have hback := hs.backed k swap hfound
  have hpos := hback.open_ hpending
  have hsplit := hback.split
  let back : Transfer Purpose := ⟨.refund k, swap.tokenA, house, swap.partyA, swap.remainingAmount⟩
  have haccepts : env.tokens.accepts s.transfers back := by
    refine hpays back rfl rfl hpos.le ?_
    rw [hbalance]
    exact hs.regular.covered hfound hpending hescrowed
  have hrest : unfilled swap = .ok swap.remainingAmount := by
    have hdiff : swap.amountA - swap.filledAmount = swap.remainingAmount := by omega
    simp only [unfilled, hescrowed, if_true, okOr_eq_ok, checkedSub_eq_some, hdiff, and_true]
    exact hback.fits
  have hreturn : returnEscrow house env k swap swap.remainingAmount s =
      .ok { s with transfers := s.transfers ++ [back] } := by
    simp only [returnEscrow, payPositive, callTransfer, hescrowed, hpos, if_true]
    exact recordTransfer_accepted haccepts
  have hcanceller : requireCanceller env swap = .ok () := by
    unfold requireCanceller
    split
    · exact requireAuth_eq_ok.mpr hauth
    · rfl
  have hadmin := hs.regular.admin (hs.regular.initialized k swap hfound)
  refine ⟨putSwap { swap with state := .cancelled } k { s with transfers := s.transfers ++ [back] },
    ?_, rfl⟩
  simp only [cancelSwap, getSwap, requirePending, closeUnfilled, closeSwap, bind_eq_ok, rejectIf_eq_ok,
    okOr_eq_ok, pure_eq_ok]
  exact ⟨(), by simpa using hadmin, swap, hfound, (), by simp [hpending], (), hcanceller, _, hrest, _,
    hreturn, rfl⟩

theorem Kept.solvent (hs : Kept house s) (hempty : ∀ token, ledger token house = 0)
    (hexact : ∀ token, surplus token house s = 0) : Solvent ledger house s := by
  have hbalance : ∀ token, replay ledger s.transfers token house = held token s := by
    intro token
    have hzero := hexact token
    unfold surplus at hzero
    rw [replay_eq_gain, hempty]
    omega
  refine ⟨hbalance, fun k swap hfound => ?_, ?_⟩
  · have hsound := hs.regular.sound k swap hfound
    exact ⟨hsound.split, hsound.remaining⟩
  · intro k swap hfound hpending hescrowed env hauth hpays
    exact cancelSwap_refunds hs hbalance hfound hpending hescrowed hauth hpays

theorem Solvent.exact (h : Solvent ledger house s) (hempty : ∀ token, ledger token house = 0)
    (token : Address) : surplus token house s = 0 := by
  have hbalance := h.balance token
  rw [replay_eq_gain, hempty] at hbalance
  unfold surplus
  omega

theorem made_eq {log : List (Transfer Purpose)} (h : t.transfers = s.transfers ++ log) :
    made ⟨s, i, t⟩ = log := by
  unfold made
  rw [h]
  exact List.drop_left

theorem Move.log (h : Move sha256 house i s t) (hs : Regular s) :
    ∃ log, t.transfers = s.transfers ++ log := by
  cases h with
  | configured call swaps transfers config => exact ⟨[], by simp [transfers]⟩
  | proposed terms swap call proposed => exact ⟨_, by rw [proposed.result]⟩
  | executed taker swapId amount preimage referrer swap call executed =>
    obtain ⟨_, hfill⟩ := executed.filled
    exact ⟨_, by rw [hfill.result]⟩
  | filled swapId amount swap call filled =>
    obtain ⟨_, hfill⟩ := filled.fill
    exact ⟨_, by rw [hfill.result]⟩
  | closed swapIds closes call =>
    obtain ⟨log, hlog, _⟩ := closes.log hs.sound
    exact ⟨log, hlog⟩

theorem Move.others (h : Move sha256 house i s t) (hs : Regular s) {k : ℕ} {swap : SwapInfo}
    (hfound : s.swaps.lookup k = some swap) (haway : k ∉ i.call.swapIds) :
    t.swaps.lookup k = some swap := by
  rw [← hfound]
  cases h with
  | configured call swaps transfers config => rw [swaps]
  | proposed terms other call proposed =>
    have hne : k ≠ s.swapCount.getD 0 := Nat.ne_of_lt (hs.counted k swap hfound)
    rw [proposed.lookup_eq, if_neg hne]
  | executed taker swapId amount preimage referrer other call executed =>
    obtain ⟨_, hfill⟩ := executed.filled
    have hne : k ≠ swapId := by
      rcases call with hcall | ⟨hcall, _⟩ <;> simpa [hcall, Call.swapIds] using haway
    rw [hfill.lookup_eq, if_neg hne]
  | filled swapId amount other call filled =>
    obtain ⟨_, hfill⟩ := filled.fill
    have hne : k ≠ swapId := by simpa [call, Call.swapIds] using haway
    rw [hfill.lookup_eq, if_neg hne]
  | closed swapIds closes call =>
    have hout : k ∉ swapIds := by
      rcases call with ⟨_, rfl, hcall⟩ | ⟨_, hcall⟩ | ⟨_, rfl, hcall | hcall, _⟩ <;>
        simpa [hcall, Call.swapIds] using haway
    exact (closes.lookup_eq k).1 hout

theorem separate_of_exact (hs : Kept house s) (h : exec sha256 house i s = .ok t)
    (hbefore : ∀ token, surplus token house s = 0) (hafter : ∀ token, surplus token house t = 0) :
    Separate house ⟨s, i, t⟩ := by
  refine ⟨fun k swap hfound haway => (exec_move h).others hs.regular hfound haway, fun token => ?_⟩
  obtain ⟨log, hlog⟩ := (exec_move h).log hs.regular
  have hold := hbefore token
  have hnew := hafter token
  unfold surplus at hold hnew
  rw [hlog, gain_append] at hnew
  rw [made_eq hlog]
  dsimp only
  omega

theorem kept_empty (house : Address) : Kept house {} := ⟨regular_empty, fun _ _ h => by cases h⟩

/-- The contract stays solvent, and swaps separate, exactly if every call that returned was frugal. -/
theorem escrow_solvent_iff (sha256 : Bytes32 → Bytes32) (house : Address) (ledger : Ledger)
    (is : List Invocation) (hempty : ∀ token, ledger token house = 0)
    (hhonest : ∀ i ∈ is, Honest ledger house i) :
    (∀ e ∈ history sha256 house is, Solvent ledger house e.after ∧ Separate house e) ↔
      ∀ e ∈ history sha256 house is, Frugal house e.before e.invocation := by
  let Exact : State → Prop := fun s => ∀ token, surplus token house s = 0
  have hstart : Exact {} := fun _ => rfl
  have hcalls : HostRuns.Along (exec sha256 house) (fun _ i => Honest ledger house i) {} is :=
    ((HostRuns.along_true _ _ _).and_forall hhonest).mono fun _ _ h => h.2
  have hkeep : ∀ s i t, Kept house s → Honest ledger house i → exec sha256 house i s = .ok t →
      Kept house t := fun _ _ _ hs hi h => hs.step hi h
  have hstep : ∀ s i t, Kept house s → Exact s → Honest ledger house i →
      exec sha256 house i s = .ok t → (Exact t ↔ Frugal house s i) := by
    intro s i t hs hexact hi h
    rw [← surplus_kept_iff hs hi h]
    exact forall_congr' fun token => by rw [hexact token]
  have hlaw : (∀ e ∈ history sha256 house is, Exact e.after) ↔
      ∀ e ∈ history sha256 house is, Frugal house e.before e.invocation :=
    HostRuns.history_forall_iff hkeep hstep (kept_empty house) hstart hcalls
  constructor
  · intro h
    exact hlaw.mp fun e he token => (h e he).1.exact hempty token
  · intro hfrugal e he
    have halong := hcalls.and (HostRuns.along_of_history hfrugal)
    have hnext : ∀ s i t, Kept house s ∧ Exact s → Honest ledger house i ∧
        (∀ t, exec sha256 house i s = .ok t → Frugal house s i) →
        exec sha256 house i s = .ok t → Kept house t ∧ Exact t := fun s i t hs hi h =>
      ⟨hs.1.step hi.1 h, (hstep s i t hs.1 hs.2 hi.1 h).mpr (hi.2 t h)⟩
    obtain ⟨⟨hs, hexact⟩, hi, h⟩ := HostRuns.history_mem hnext ⟨kept_empty house, hstart⟩ halong he
    have hafter := hlaw.mpr hfrugal e he
    exact ⟨(hs.step hi.1 h).solvent hempty hafter, separate_of_exact hs h hexact hafter⟩

end Solvency

def demoHouse : Address := ⟨0⟩
def demoAdmin : Address := ⟨1⟩
def demoTreasury : Address := ⟨2⟩
def demoMaker : Address := ⟨3⟩
def demoOther : Address := ⟨4⟩
def demoTaker : Address := ⟨5⟩
def demoTokenA : Address := ⟨6⟩
def demoTokenB : Address := ⟨7⟩

def demoLedger : Ledger := fun _ holder => if holder = demoHouse then 0 else 1000

/-- Tokens are honest, and nobody but the contract withholds an authorization. -/
def demoInvoke (x : ℕ × Call) : Invocation where
  sequence := x.1
  auths := [demoAdmin, demoMaker, demoOther, demoTaker]
  tokens := honestReplies demoLedger
  reported log token := replay demoLedger log token demoHouse
  call := x.2

/-- A hundred for two hundred until ledger 50. -/
def demoTerms (partyA : Address) : Terms :=
  ⟨partyA, demoTokenA, 100, demoTokenB, 200, 50, none, none⟩

/-- One swap is escrowed, the other one is backed by an allowance. -/
def demoSetup : List (ℕ × Call) :=
  [(1, .initializeSwaps demoAdmin demoTreasury 100),
    (2, .proposeSwapWithOptions (demoTerms demoMaker) true true none),
    (3, .proposeSwapWithOptions (demoTerms demoOther) true false none)]

/-- The first swap is filled in parts and then cancelled, the second one is filled whole. -/
def demoFrugal : List (ℕ × Call) :=
  demoSetup ++ [(4, .executeSwap demoTaker 0 50 none (some demoOther)),
    (5, .fillSwapPartial 0 10), (6, .acceptSwap demoTaker 1 100), (7, .cancelSwap 0)]

/-- The second maker fills the second swap. -/
def demoDrain : List (ℕ × Call) := demoSetup ++ [(4, .fillSwapPartial 1 40)]

def demoRun (calls : List (ℕ × Call)) : List Invocation := calls.map demoInvoke

theorem demo_honest {calls : List (ℕ × Call)} (h : ∀ x ∈ calls, x.2.Fits) :
    ∀ i ∈ demoRun calls, Honest demoLedger demoHouse i := by
  intro i hi
  obtain ⟨x, hx, rfl⟩ := List.mem_map.mp hi
  exact ⟨show demoHouse ∉ [demoAdmin, demoMaker, demoOther, demoTaker] by decide, fun _ _ => rfl,
    h x hx⟩

/-- All seven calls return. -/
theorem escrow_solvent_iff_demo : (history id demoHouse (demoRun demoFrugal)).length = 7 ∧
    ∀ e ∈ history id demoHouse (demoRun demoFrugal),
      Solvent demoLedger demoHouse e.after ∧ Separate demoHouse e := by
  refine ⟨by decide +kernel, (escrow_solvent_iff id demoHouse demoLedger (demoRun demoFrugal)
    (fun _ => rfl) (demo_honest ?_)).mpr (by decide +kernel)⟩
  simp [demoFrugal, demoSetup, Call.Fits, demoTerms, InI128]

/-- A maker whose swap was never escrowed fills it from the escrow of the other one, which can no
    longer be refunded. -/
theorem escrow_spent_by_other_maker :
    ¬ (∀ e ∈ history id demoHouse (demoRun demoDrain),
      Solvent demoLedger demoHouse e.after ∧ Separate demoHouse e) ∧
    replay demoLedger (run id demoHouse (demoRun demoDrain)).transfers demoTokenA demoHouse = 60 ∧
    held demoTokenA (run id demoHouse (demoRun demoDrain)) = 100 ∧
    (cancelSwap demoHouse (demoInvoke (5, .cancelSwap 0)).toEnv 0
      (run id demoHouse (demoRun demoDrain))).toOption.isNone := by
  refine ⟨fun h => ?_, by decide +kernel⟩
  have hwrong : ∃ e ∈ history id demoHouse (demoRun demoDrain),
      replay demoLedger e.after.transfers demoTokenA demoHouse ≠ held demoTokenA e.after := by
    decide +kernel
  obtain ⟨e, he, hne⟩ := hwrong
  exact hne ((h e he).1.balance demoTokenA)

end SorobanKit.Swap
