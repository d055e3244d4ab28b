import SorobanKit.HostBalances
import SorobanKit.SwapContract

set_option autoImplicit false

/-!
# What swap calls do

A returning call configures, proposes one swap, fills one, or closes some. `Move` lists these with
the transfers made, and `Regular` is what holds of every stored swap.
-/
namespace SorobanKit.Swap
open CommonMath HostInteger HostInvocation HostTransfers
open HostBalances (lookup_insert_ite)

section Transfers
variable {house : Address} {env : Env} {s t : State} {x : Transfer Purpose}

/-- The transfer, unless it is of nothing. -/
def positive (x : Transfer Purpose) : List (Transfer Purpose) := if 0 < x.amount then [x] else []

def feeLog (house : Address) (swapId : ℕ) (tokenB treasury : Address) (referrer : Option Address)
    (fee : ℤ) : List (Transfer Purpose) :=
  if 0 < fee then
    match referrer with
    | some referrer =>
      positive ⟨.referral swapId, tokenB, house, referrer, fee.tdiv 2⟩ ++
        positive ⟨.fee swapId, tokenB, house, treasury, fee - fee.tdiv 2⟩
    | none => [⟨.fee swapId, tokenB, house, treasury, fee⟩]
  else []

theorem eq_of_mem_positive {y : Transfer Purpose} (h : x ∈ positive y) : x = y := by
  unfold positive at h
  split at h
  · exact List.mem_singleton.mp h
  · cases h

theorem payPositive_ok (h : payPositive env x s = .ok t) :
    t = { s with transfers := s.transfers ++ positive x } := by
  unfold payPositive at h
  unfold positive
  split at h
  · next hpos =>
    rw [if_pos hpos]
    exact recordTransfer_ok h
  · next hpos =>
    rw [if_neg hpos, List.append_nil]
    rw [pure_eq_ok] at h
    exact h.symm

theorem transferInMeasured_ok {purpose : Purpose} {token source : Address} {amount received : ℤ}
    (h : transferInMeasured house env purpose token source amount s = .ok (received, t)) :
    received = saturatingSub (env.reported t.transfers token) (env.reported s.transfers token) ∧
      t = { s with transfers := s.transfers ++ [⟨purpose, token, source, house, amount⟩] } := by
  simp only [transferInMeasured, bind_eq_ok, pure_eq_ok] at h
  obtain ⟨u, hcall, hpair⟩ := h
  obtain ⟨hreceived, rfl⟩ := Prod.mk.inj hpair
  exact ⟨hreceived.symm, recordTransfer_ok hcall⟩

theorem forwardFee_ok {swapId : ℕ} {tokenB treasury : Address} {referrer : Option Address} {fee : ℤ}
    (h : forwardFee house env swapId tokenB treasury referrer fee s = .ok t) :
    t = { s with transfers :=
      s.transfers ++ feeLog house swapId tokenB treasury referrer fee } := by
  unfold forwardFee at h
  unfold feeLog
  split at h
  · next hpos =>
    rw [if_pos hpos]
    cases referrer with
    | none => exact recordTransfer_ok h
    | some referrer =>
      simp only [bind_eq_ok, okOr_eq_ok, checkedSub_eq_some] at h
      obtain ⟨_, ⟨_, rfl⟩, u, hreferral, htreasury⟩ := h
      rw [payPositive_ok htreasury, payPositive_ok hreferral]
      dsimp only
      rw [List.append_assoc]
  · next hpos =>
    rw [if_neg hpos, List.append_nil]
    rw [pure_eq_ok] at h
    exact h.symm

end Transfers

section Records
variable {swap after : SwapInfo} {amount : ℤ}

/-- The record after a fill. -/
def filled (swap : SwapInfo) (amount : ℤ) : SwapInfo :=
  { swap with
    filledAmount := swap.filledAmount + amount, remainingAmount := swap.remainingAmount - amount
    state := if swap.remainingAmount - amount = 0 then .executed else swap.state }

theorem advance_ok (h : advance swap amount = .ok after) :
    after = filled swap amount ∧ InI128 (swap.remainingAmount - amount) := by
  simp only [advance, bind_eq_ok, okOr_eq_ok, checkedAdd_eq_some, checkedSub_eq_some,
    pure_eq_ok] at h
  obtain ⟨_, ⟨_, rfl⟩, _, ⟨hremaining, rfl⟩, rfl⟩ := h
  exact ⟨rfl, hremaining⟩

theorem fillAmountB_ok {amountB : ℤ} (h : fillAmountB swap amount = .ok amountB) :
    0 < amountB ∧ InI128 amountB := by
  simp only [fillAmountB, ensureValidLegAmount, bind_eq_ok, okOr_eq_ok, rejectIf_eq_ok,
    pure_eq_ok] at h
  obtain ⟨_, hdiv, _, hpos, rfl⟩ := h
  exact ⟨by omega, mulDiv_inI128 (toOption_eq_some.mp hdiv)⟩

end Records

section Fills
variable {sha256 : Bytes32 → Bytes32} {house : Address} {env : Env} {s t : State}

/-- A fill of a swap that is open, with the transfers it makes. -/
structure Fill (env : Env) (swapId : ℕ) (swap : SwapInfo) (amount : ℤ)
    (log : List (Transfer Purpose)) (s t : State) : Prop where
  found : s.swaps.lookup swapId = some swap
  pending : swap.state = .pending
  positive : 0 < amount
  covered : amount ≤ swap.remainingAmount
  fits : InI128 (swap.remainingAmount - amount)
  timely : env.sequence ≤ swap.expiresAt
  result : t = { putSwap (filled swap amount) swapId s with transfers := s.transfers ++ log }

/-- What the maker offered, on its way to the taker. -/
def delivery (house : Address) (swapId : ℕ) (swap : SwapInfo) (taker : Address) (amount : ℤ) :
    Transfer Purpose :=
  ⟨.fill swapId, swap.tokenA, if swap.escrowed then house else swap.partyA, taker, amount⟩

def payment (house : Address) (swapId : ℕ) (swap : SwapInfo) (taker : Address) (amountB : ℤ) :
    Transfer Purpose :=
  ⟨.payment swapId, swap.tokenB, taker, house, amountB⟩

def proceeds (house : Address) (swapId : ℕ) (swap : SwapInfo) (amount : ℤ) : Transfer Purpose :=
  ⟨.proceeds swapId, swap.tokenB, house, swap.partyA, amount⟩

/-- What `execute_swap` finds. -/
structure Executed (sha256 : Bytes32 → Bytes32) (house : Address) (env : Env) (taker : Address)
    (swapId : ℕ) (amount : ℤ) (preimage : Option Bytes32) (referrer : Option Address)
    (swap : SwapInfo) (s t : State) : Prop where
  auth : taker ∈ env.auths
  guards : checkGuards sha256 env taker preimage swap = .ok ()
  fill : ∃ feeBps treasury amountB fee received actualFee,
    s.feeBps = some feeBps ∧ s.treasury = some treasury ∧
    fillAmountB swap amount = .ok amountB ∧ calculateAndValidateFee amountB feeBps = .ok fee ∧
    received = saturatingSub
      (env.reported (s.transfers ++ [payment house swapId swap taker amountB]) swap.tokenB)
      (env.reported s.transfers swap.tokenB) ∧
    calculateAndValidateFee received feeBps = .ok actualFee ∧
    Fill env swapId swap amount (payment house swapId swap taker amountB ::
      (Swap.positive (proceeds house swapId swap (received - actualFee)) ++
        feeLog house swapId swap.tokenB treasury referrer fee ++
          [delivery house swapId swap taker amount])) s t

theorem Executed.filled {taker : Address} {swapId : ℕ} {amount : ℤ} {preimage : Option Bytes32}
    {referrer : Option Address} {swap : SwapInfo}
    (h : Executed sha256 house env taker swapId amount preimage referrer swap s t) :
    ∃ log, Fill env swapId swap amount log s t := by
  obtain ⟨feeBps, treasury, amountB, fee, received, actualFee, _, _, _, _, _, _, hfill⟩ := h.fill
  exact ⟨_, hfill⟩

theorem deliver_ok {swapId : ℕ} {swap : SwapInfo} {taker : Address} {amount : ℤ}
    (h : deliver house env swapId swap taker amount s = .ok t) :
    t = { s with transfers := s.transfers ++ [delivery house swapId swap taker amount] } := by
  unfold deliver at h
  unfold delivery
  split at h
  · next hescrowed =>
    rw [if_pos hescrowed]
    exact recordTransfer_ok h
  · next hescrowed =>
    rw [if_neg hescrowed]
    exact recordTransfer_ok h

theorem executeSwap_ok {taker : Address} {swapId id : ℕ} {amount : ℤ} {preimage : Option Bytes32}
    {referrer : Option Address}
    (h : executeSwap sha256 house env taker swapId amount preimage referrer s = .ok (id, t)) :
    ∃ swap, Executed sha256 house env taker swapId amount preimage referrer swap s t := by
  simp only [executeSwap, ensureValidLegAmount, getSwap, requirePending, bind_eq_ok, okOr_eq_ok,
    requireAuth_eq_ok, rejectIf_eq_ok, checkedSub_eq_some, pure_eq_ok] at h
  obtain ⟨_, hauth, _, hamount, feeBps, hbps, treasury, htreasury, swap, hfound, _, hpending, _,
    htimely, _, hguards, _, hcovered, _, _, amountB, hamountB, fee, hfee, _, _, ⟨received, s₁⟩, hpull,
    actualFee, hactual, _, ⟨_, rfl⟩, s₂, hproceeds, s₃, hforward, s₄, hdeliver, after, hadvance,
    hresult⟩ := h
  obtain ⟨hreceived, rfl⟩ := transferInMeasured_ok hpull
  obtain ⟨rfl, hfits⟩ := advance_ok hadvance
  obtain ⟨_, rfl⟩ := Prod.mk.inj hresult
  rw [payPositive_ok hproceeds] at hforward
  rw [forwardFee_ok hforward] at hdeliver
  refine ⟨swap, hauth, hguards, feeBps, treasury, amountB, fee, received, actualFee, hbps, htreasury,
    hamountB, hfee, hreceived, hactual, hfound, Decidable.not_not.mp hpending, by omega, by omega,
    hfits, by omega, ?_⟩
  rw [deliver_ok hdeliver]
  simp only [putSwap, payment, proceeds, List.append_assoc, List.cons_append, List.nil_append]

/-- What `fill_swap_partial` finds. -/
structure FilledPartially (house : Address) (env : Env) (swapId : ℕ) (amount : ℤ) (swap : SwapInfo)
    (s t : State) : Prop where
  auth : swap.partyA ∈ env.auths
  fill : ∃ amountB, Fill env swapId swap amount
    [payment house swapId swap swap.partyA amountB, proceeds house swapId swap amountB,
      ⟨.fill swapId, swap.tokenA, house, swap.partyA, amount⟩] s t

theorem fillSwapPartial_ok {swapId : ℕ} {amount : ℤ}
    (h : fillSwapPartial house env swapId amount s = .ok t) :
    ∃ swap, FilledPartially house env swapId amount swap s t := by
  simp only [fillSwapPartial, ensureValidLegAmount, getSwap, requirePending, bind_eq_ok, okOr_eq_ok,
    requireAuth_eq_ok, rejectIf_eq_ok, pure_eq_ok] at h
  obtain ⟨_, hamount, swap, hfound, _, hpending, _, _, _, htimely, _, hcovered, _, hauth, amountB, _,
    s₁, hpay, s₂, hproceeds, s₃, hdeliver, after, hadvance, rfl⟩ := h
  obtain ⟨rfl, hfits⟩ := advance_ok hadvance
  rw [recordTransfer_ok hpay] at hproceeds
  rw [recordTransfer_ok hproceeds] at hdeliver
  refine ⟨swap, hauth, amountB, hfound, Decidable.not_not.mp hpending, by omega, by omega, hfits,
    by omega, ?_⟩
  rw [recordTransfer_ok hdeliver]
  simp only [putSwap, payment, proceeds, List.append_assoc, List.cons_append, List.nil_append]

end Fills

section Ends
variable {house : Address} {env : Env} {s t u : State}

/-- What goes back when a swap is closed with `remaining` unfilled. -/
def refund (house : Address) (swapId : ℕ) (swap : SwapInfo) (remaining : ℤ) :
    List (Transfer Purpose) :=
  if swap.escrowed then positive ⟨.refund swapId, swap.tokenA, house, swap.partyA, remaining⟩ else []

def closed (house : Address) (swapId : ℕ) (swap : SwapInfo) (remaining : ℤ) (state : SwapState)
    (s : State) : State :=
  { putSwap { swap with state := state } swapId s with
    transfers := s.transfers ++ refund house swapId swap remaining }

/-- The swaps of the list are closed, one after the other. -/
inductive Closes (house : Address) : List ℕ → State → State → Prop where
  | nil (s : State) : Closes house [] s s
  | cons {swapId : ℕ} {swapIds : List ℕ} {s u : State} (swap : SwapInfo) (remaining : ℤ)
      (state : SwapState) (found : s.swaps.lookup swapId = some swap)
      (pending : swap.state = .pending) (final : state ≠ .pending)
      (rest : swap.escrowed = true → remaining = swap.remainingAmount ∨
        remaining = swap.amountA - swap.filledAmount)
      (next : Closes house swapIds (closed house swapId swap remaining state s) u) :
      Closes house (swapId :: swapIds) s u

theorem closeSwap_ok {swapId : ℕ} {swap : SwapInfo} {remaining : ℤ} {state : SwapState}
    (h : closeSwap house env swapId swap remaining state s = .ok t) :
    t = closed house swapId swap remaining state s := by
  simp only [closeSwap, returnEscrow, bind_eq_ok, ite_eq_ok, pure_eq_ok] at h
  unfold closed refund
  obtain ⟨u, ⟨hescrowed, hpay⟩ | ⟨hescrowed, rfl⟩, rfl⟩ := h
  · rw [if_pos hescrowed, payPositive_ok hpay]
    rfl
  · rw [if_neg hescrowed, List.append_nil]
    rfl

theorem closeUnfilled_ok {swapId : ℕ} {swap : SwapInfo} {state : SwapState}
    (h : closeUnfilled house env swapId swap state s = .ok t) :
    ∃ remaining, (swap.escrowed = true → remaining = swap.amountA - swap.filledAmount) ∧
      t = closed house swapId swap remaining state s := by
  simp only [closeUnfilled, unfilled, bind_eq_ok, ite_eq_ok, okOr_eq_ok, checkedSub_eq_some,
    pure_eq_ok] at h
  obtain ⟨remaining, hrest, hclose⟩ := h
  refine ⟨remaining, fun hescrowed => ?_, closeSwap_ok hclose⟩
  rcases hrest with ⟨_, _, rfl⟩ | ⟨hnot, _⟩
  · rfl
  · exact absurd hescrowed hnot

theorem Closes.single {swapId : ℕ} {swap : SwapInfo} {remaining : ℤ} {state : SwapState}
    (hfound : s.swaps.lookup swapId = some swap) (hpending : swap.state = .pending)
    (hfinal : state ≠ .pending)
    (hrest : swap.escrowed = true → remaining = swap.remainingAmount ∨
      remaining = swap.amountA - swap.filledAmount) :
    Closes house [swapId] s (closed house swapId swap remaining state s) :=
  .cons swap remaining state hfound hpending hfinal hrest (.nil _)

theorem cancelSwap_ok {swapId : ℕ} (h : cancelSwap house env swapId s = .ok t) :
    Closes house [swapId] s t := by
  simp only [cancelSwap, getSwap, requirePending, bind_eq_ok, okOr_eq_ok, rejectIf_eq_ok] at h
  obtain ⟨_, _, swap, hfound, _, hpending, _, _, hclose⟩ := h
  obtain ⟨remaining, hrest, rfl⟩ := closeUnfilled_ok hclose
  exact Closes.single hfound (Decidable.not_not.mp hpending) (by simp) fun h => .inr (hrest h)

theorem refundHashlockedSwap_ok {swapId : ℕ} (h : refundHashlockedSwap house env swapId s = .ok t) :
    Closes house [swapId] s t ∧ ∀ swap ∈ s.swaps.lookup swapId, swap.expiresAt < env.sequence := by
  simp only [refundHashlockedSwap, getSwap, requirePending, bind_eq_ok, okOr_eq_ok,
    rejectIf_eq_ok] at h
  obtain ⟨swap, hfound, _, hpending, _, _, _, hlate, _, _, hclose⟩ := h
  obtain rfl := closeSwap_ok hclose
  refine ⟨Closes.single hfound (Decidable.not_not.mp hpending) (by simp) fun _ => .inl rfl, ?_⟩
  intro other hother
  obtain rfl := Option.some_inj.mp (hfound.symm.trans hother)
  omega

theorem expireSwap_ok {swapId : ℕ} (h : expireSwap house env swapId s = .ok t) :
    Closes house [swapId] s t ∧ ∀ swap ∈ s.swaps.lookup swapId, swap.expiresAt < env.sequence := by
  simp only [expireSwap, getSwap, requirePending, bind_eq_ok, okOr_eq_ok, rejectIf_eq_ok] at h
  obtain ⟨swap, hfound, _, hpending, _, hlate, hclose⟩ := h
  obtain ⟨remaining, hrest, rfl⟩ := closeUnfilled_ok hclose
  refine ⟨Closes.single hfound (Decidable.not_not.mp hpending) (by simp) fun h => .inr (hrest h), ?_⟩
  intro other hother
  obtain rfl := Option.some_inj.mp (hfound.symm.trans hother)
  omega

theorem cancelMany_ok {creator : Address} {swapIds : List ℕ}
    (h : swapIds.foldlM (cancelOne house env creator) s = .ok t) : Closes house swapIds s t := by
  induction swapIds generalizing s with
  | nil =>
    rw [List.foldlM_nil, pure_eq_ok] at h
    subst h
    exact .nil s
  | cons swapId swapIds ih =>
    rw [List.foldlM_cons] at h
    simp only [cancelOne, getSwap, requirePending, bind_eq_ok, okOr_eq_ok, rejectIf_eq_ok] at h
    obtain ⟨u, ⟨swap, hfound, _, hpending, _, _, hclose⟩, hrest⟩ := h
    obtain rfl := closeSwap_ok hclose
    exact .cons swap _ _ hfound (Decidable.not_not.mp hpending) (by simp) (fun _ => .inl rfl) (ih hrest)

theorem cancelSwapsBatch_ok {creator : Address} {swapIds : List ℕ}
    (h : cancelSwapsBatch house env creator swapIds s = .ok t) : Closes house swapIds s t := by
  simp only [cancelSwapsBatch, bind_eq_ok] at h
  obtain ⟨_, _, _, _, hmany⟩ := h
  exact cancelMany_ok hmany

theorem lookup_closed {swapId : ℕ} {swap : SwapInfo} {remaining : ℤ} {state : SwapState} (k : ℕ) :
    (closed house swapId swap remaining state s).swaps.lookup k =
      if k = swapId then some { swap with state := state } else s.swaps.lookup k :=
  lookup_insert_ite _ _ _ _

theorem lookup_closed_of_ne {swapId k : ℕ} {swap : SwapInfo} {remaining : ℤ} {state : SwapState}
    (h : k ≠ swapId) :
    (closed house swapId swap remaining state s).swaps.lookup k = s.swaps.lookup k := by
  rw [lookup_closed, if_neg h]

theorem Closes.lookup_eq {swapIds : List ℕ} (h : Closes house swapIds s t) (k : ℕ) :
    (k ∉ swapIds → t.swaps.lookup k = s.swaps.lookup k) ∧
    (k ∈ swapIds → ∃ swap state, s.swaps.lookup k = some swap ∧ swap.state = .pending ∧
      t.swaps.lookup k = some { swap with state := state } ∧ state ≠ .pending) := by
  induction h with
  | nil s => exact ⟨fun _ => rfl, fun hk => by cases hk⟩
  | cons swap remaining state found pending final rest next ih =>
    rename_i swapId swapIds s u
    obtain ⟨hout, hin⟩ := ih
    rw [lookup_closed] at hout hin
    constructor
    · intro hk
      rw [List.mem_cons, not_or] at hk
      rw [hout hk.2, if_neg hk.1]
    · intro hk
      by_cases hlater : k ∈ swapIds
      · obtain ⟨other, last, hfound, hpending, hlast⟩ := hin hlater
        split at hfound
        · -- a swap that was closed is not closed again
          obtain rfl := Option.some_inj.mp hfound
          exact absurd hpending final
        · exact ⟨other, last, hfound, hpending, hlast⟩
      · obtain rfl := (List.mem_cons.mp hk).resolve_right hlater
        have hlast := hout hlater
        rw [if_pos rfl] at hlast
        exact ⟨swap, state, found, pending, hlast, final⟩

/-- The storage but for swaps and transfers. -/
structure SameConfig (s t : State) : Prop where
  initialized : t.initialized = s.initialized
  admin : t.admin = s.admin
  swapCount : t.swapCount = s.swapCount

theorem Closes.sameConfig {swapIds : List ℕ} (h : Closes house swapIds s t) : SameConfig s t := by
  induction h with
  | nil s => exact ⟨rfl, rfl, rfl⟩
  | cons swap remaining state found pending final rest next ih =>
    exact ⟨ih.initialized, ih.admin, ih.swapCount⟩

end Ends

section Moves
variable {sha256 : Bytes32 → Bytes32} {house : Address} {env : Env} {i : Invocation} {s t : State}

/-- A proposal, with the amount it pulls if it is escrowed. -/
structure Proposed (house : Address) (env : Env) (terms : Terms) (swap : SwapInfo) (s t : State) :
    Prop where
  initialized : s.initialized ≠ none
  auth : terms.partyA ∈ env.auths
  positive : 0 < terms.amountA
  terms_eq : swap.partyA = terms.partyA ∧ swap.tokenA = terms.tokenA ∧ swap.amountA = terms.amountA
  fresh : swap.state = .pending ∧ swap.filledAmount = 0 ∧ swap.remainingAmount = terms.amountA
  result : t = { putSwap swap (s.swapCount.getD 0) s with
    swapCount := some (s.swapCount.getD 0 + 1)
    transfers := s.transfers ++ if swap.escrowed then
      [⟨.escrow (s.swapCount.getD 0), terms.tokenA, terms.partyA, house, terms.amountA⟩] else [] }

theorem pullEscrow_ok {swapId : ℕ} {terms : Terms} {escrowed : Bool}
    (h : pullEscrow house env swapId terms escrowed s = .ok t) :
    t = { s with transfers := s.transfers ++ if escrowed then
      [⟨.escrow swapId, terms.tokenA, terms.partyA, house, terms.amountA⟩] else [] } := by
  simp only [pullEscrow, ite_eq_ok, bind_eq_ok, pure_eq_ok] at h
  rcases h with ⟨hescrowed, ⟨_, u⟩, hpull, rfl⟩ | ⟨hescrowed, rfl⟩
  · rw [if_pos hescrowed]
    exact (transferInMeasured_ok hpull).2
  · rw [if_neg hescrowed, List.append_nil]

theorem proposeSwapWithOptions_ok {terms : Terms} {allowPartialFills escrowed : Bool}
    {hashLock : Option Bytes32} {swapId : ℕ}
    (h : proposeSwapWithOptions house env terms allowPartialFills escrowed hashLock s =
      .ok (swapId, t)) : ∃ swap, Proposed house env terms swap s t := by
  simp only [proposeSwapWithOptions, ensureValidLegAmount, bind_eq_ok, rejectIf_eq_ok,
    requireAuth_eq_ok, okOr_eq_ok, checkedAddU32_eq_some, pure_eq_ok] at h
  obtain ⟨_, hinit, _, hauth, _, hamount, _, _, _, _, _, ⟨_, rfl⟩, u, hpull, hresult⟩ := h
  obtain rfl := pullEscrow_ok hpull
  obtain ⟨_, rfl⟩ := Prod.mk.inj hresult
  exact ⟨_, by simpa using hinit, hauth, by omega, ⟨rfl, rfl, rfl⟩, ⟨rfl, rfl, rfl⟩, rfl⟩

/-- The call neither fills nor closes a swap. -/
def Call.Manages : Call → Prop
  | .initializeSwaps _ _ _ | .setTreasury _ | .setFeeBps _ | .setAdmin _ => True
  | .proposeSwap _ | .proposeSwapWithOptions _ _ _ _ => True
  | _ => False

def Call.Proposes (terms : Terms) (call : Call) : Prop :=
  call = .proposeSwap terms ∨ ∃ allowPartialFills escrowed hashLock,
    call = .proposeSwapWithOptions terms allowPartialFills escrowed hashLock

/-- What a returning call does to swaps and transfers. -/
inductive Move (sha256 : Bytes32 → Bytes32) (house : Address) (i : Invocation) (s t : State) : Prop
    where
  | configured (call : i.call.Manages) (swaps : t.swaps = s.swaps)
      (transfers : t.transfers = s.transfers)
      (config : (s.initialized = none ∧ t.admin ≠ none) ∨
        (t.initialized = s.initialized ∧ t.swapCount = s.swapCount ∧ t.admin ≠ none))
  | proposed (terms : Terms) (swap : SwapInfo)
      (call : i.call.Proposes terms)
      (proposed : Proposed house i.toEnv terms swap s t)
  | executed (taker : Address) (swapId : ℕ) (amount : ℤ) (preimage : Option Bytes32)
      (referrer : Option Address) (swap : SwapInfo)
      (call : i.call = .executeSwap taker swapId amount preimage referrer ∨
        (i.call = .acceptSwap taker swapId amount ∧ preimage = none ∧ referrer = none))
      (executed : Executed sha256 house i.toEnv taker swapId amount preimage referrer swap s t)
  | filled (swapId : ℕ) (amount : ℤ) (swap : SwapInfo) (call : i.call = .fillSwapPartial swapId amount)
      (filled : FilledPartially house i.toEnv swapId amount swap s t)
  | closed (swapIds : List ℕ) (closes : Closes house swapIds s t)
      (call : (∃ swapId, swapIds = [swapId] ∧ i.call = .cancelSwap swapId) ∨
        (∃ creator, i.call = .cancelSwapsBatch creator swapIds) ∨
        (∃ swapId, swapIds = [swapId] ∧
          (i.call = .refundHashlockedSwap swapId ∨ i.call = .expireSwap swapId) ∧
          ∀ swap ∈ s.swaps.lookup swapId, swap.expiresAt < i.sequence))

theorem requireAdmin_ok (h : requireAdmin env s = .ok ()) : s.admin ≠ none := by
  simp only [requireAdmin, bind_eq_ok, okOr_eq_ok] at h
  obtain ⟨admin, hadmin, _⟩ := h
  simp [hadmin]

theorem exec_move (h : exec sha256 house i s = .ok t) : Move sha256 house i s t := by
  cases hcall : i.call with
  | initializeSwaps admin treasury feeBps =>
    simp only [exec, hcall, initializeSwaps, bind_eq_ok, rejectIf_eq_ok, pure_eq_ok] at h
    obtain ⟨_, hinit, _, _, _, _, rfl⟩ := h
    exact .configured (by simp [hcall, Call.Manages]) rfl rfl (.inl ⟨by simpa using hinit, by simp⟩)
  | setTreasury newTreasury =>
    simp only [exec, hcall, setTreasury, bind_eq_ok, pure_eq_ok] at h
    obtain ⟨_, hadmin, rfl⟩ := h
    exact .configured (by simp [hcall, Call.Manages]) rfl rfl
      (.inr ⟨rfl, rfl, requireAdmin_ok hadmin⟩)
  | setFeeBps newFeeBps =>
    simp only [exec, hcall, setFeeBps, bind_eq_ok, pure_eq_ok] at h
    obtain ⟨_, hadmin, _, _, rfl⟩ := h
    exact .configured (by simp [hcall, Call.Manages]) rfl rfl
      (.inr ⟨rfl, rfl, requireAdmin_ok hadmin⟩)
  | setAdmin newAdmin =>
    simp only [exec, hcall, setAdmin, bind_eq_ok, pure_eq_ok] at h
    obtain ⟨_, _, rfl⟩ := h
    exact .configured (by simp [hcall, Call.Manages]) rfl rfl (.inr ⟨rfl, rfl, by simp⟩)
  | proposeSwap terms =>
    simp only [exec, hcall, proposeSwap, bind_eq_ok, pure_eq_ok] at h
    obtain ⟨⟨_, u⟩, hpropose, rfl⟩ := h
    obtain ⟨swap, hproposed⟩ := proposeSwapWithOptions_ok hpropose
    exact .proposed terms swap (.inl hcall) hproposed
  | proposeSwapWithOptions terms allowPartialFills escrowed hashLock =>
    simp only [exec, hcall, bind_eq_ok, pure_eq_ok] at h
    obtain ⟨⟨_, u⟩, hpropose, rfl⟩ := h
    obtain ⟨swap, hproposed⟩ := proposeSwapWithOptions_ok hpropose
    exact .proposed terms swap (.inr ⟨_, _, _, hcall⟩) hproposed
  | acceptSwap taker swapId amount =>
    simp only [exec, hcall, acceptSwap, bind_eq_ok, pure_eq_ok] at h
    obtain ⟨⟨_, u⟩, hexecute, rfl⟩ := h
    obtain ⟨swap, hexecuted⟩ := executeSwap_ok hexecute
    exact .executed taker swapId amount none none swap (.inr ⟨hcall, rfl, rfl⟩) hexecuted
  | executeSwap taker swapId amount preimage referrer =>
    simp only [exec, hcall, bind_eq_ok, pure_eq_ok] at h
    obtain ⟨⟨_, u⟩, hexecute, rfl⟩ := h
    obtain ⟨swap, hexecuted⟩ := executeSwap_ok hexecute
    exact .executed taker swapId amount preimage referrer swap (.inl hcall) hexecuted
  | fillSwapPartial swapId amount =>
    simp only [exec, hcall] at h
    obtain ⟨swap, hfilled⟩ := fillSwapPartial_ok h
    exact .filled swapId amount swap hcall hfilled
  | cancelSwap swapId =>
    simp only [exec, hcall] at h
    exact .closed [swapId] (cancelSwap_ok h) (.inl ⟨swapId, rfl, hcall⟩)
  | refundHashlockedSwap swapId =>
    simp only [exec, hcall] at h
    obtain ⟨hcloses, hlate⟩ := refundHashlockedSwap_ok h
    exact .closed [swapId] hcloses (.inr (.inr ⟨swapId, rfl, .inl hcall, hlate⟩))
  | expireSwap swapId =>
    simp only [exec, hcall] at h
    obtain ⟨hcloses, hlate⟩ := expireSwap_ok h
    exact .closed [swapId] hcloses (.inr (.inr ⟨swapId, rfl, .inr hcall, hlate⟩))
  | cancelSwapsBatch creator swapIds =>
    simp only [exec, hcall] at h
    exact .closed swapIds (cancelSwapsBatch_ok h) (.inr (.inl ⟨creator, hcall⟩))

end Moves

section Regularity
variable {sha256 : Bytes32 → Bytes32} {house : Address} {i : Invocation} {s t : State}

/-- Filled and remaining make up the amount, and a swap that is pending has something left. -/
structure Sound (swap : SwapInfo) : Prop where
  split : swap.filledAmount + swap.remainingAmount = swap.amountA
  remaining : 0 ≤ swap.remainingAmount
  open_ : swap.state = .pending → 0 < swap.remainingAmount

/-- Swaps are numbered below the count, in a contract that is set up. -/
structure Regular (s : State) : Prop where
  sound : ∀ k swap, s.swaps.lookup k = some swap → Sound swap
  counted : ∀ k swap, s.swaps.lookup k = some swap → k < s.swapCount.getD 0
  initialized : ∀ k swap, s.swaps.lookup k = some swap → s.initialized ≠ none
  admin : s.initialized ≠ none → s.admin ≠ none

theorem regular_empty : Regular ({} : State) where
  sound _ _ h := by cases h
  counted _ _ h := by cases h
  initialized _ _ h := by cases h
  admin h := absurd rfl h

theorem Regular.fresh (hs : Regular s) : s.swaps.lookup (s.swapCount.getD 0) = none := by
  cases hlookup : s.swaps.lookup (s.swapCount.getD 0) with
  | none => rfl
  | some swap => exact absurd (hs.counted _ _ hlookup) (Nat.lt_irrefl _)

/-- How a stored record may change. -/
inductive Succeeds (swap : SwapInfo) : SwapInfo → Prop where
  | same : Succeeds swap swap
  | filled (amount : ℤ) (covered : amount ≤ swap.remainingAmount)
      (fits : InI128 (swap.remainingAmount - amount)) : Succeeds swap (filled swap amount)
  | closed (state : SwapState) (final : state ≠ .pending) : Succeeds swap { swap with state := state }

theorem lookup_putSwap {swap : SwapInfo} {swapId : ℕ} (k : ℕ) :
    (putSwap swap swapId s).swaps.lookup k =
      if k = swapId then some swap else s.swaps.lookup k :=
  lookup_insert_ite _ _ _ _

theorem Fill.lookup_eq {env : Env} {swapId : ℕ} {swap : SwapInfo} {amount : ℤ}
    {log : List (Transfer Purpose)} (h : Fill env swapId swap amount log s t) (k : ℕ) :
    t.swaps.lookup k = if k = swapId then some (filled swap amount) else s.swaps.lookup k := by
  rw [h.result]
  exact lookup_putSwap k

theorem Proposed.lookup_eq {env : Env} {terms : Terms} {swap : SwapInfo}
    (h : Proposed house env terms swap s t) (k : ℕ) :
    t.swaps.lookup k = if k = s.swapCount.getD 0 then some swap else s.swaps.lookup k := by
  rw [h.result]
  exact lookup_putSwap k

theorem Fill.succeeds {env : Env} {swapId k : ℕ} {swap other : SwapInfo} {amount : ℤ}
    {log : List (Transfer Purpose)} (h : Fill env swapId swap amount log s t)
    (hk : t.swaps.lookup k = some other) :
    ∃ old, s.swaps.lookup k = some old ∧ Succeeds old other := by
  rw [h.lookup_eq] at hk
  split at hk
  · next heq =>
    cases hk
    exact ⟨swap, heq ▸ h.found, .filled amount h.covered h.fits⟩
  · exact ⟨other, hk, .same⟩

theorem Closes.succeeds {swapIds : List ℕ} {k : ℕ} {other : SwapInfo}
    (h : Closes house swapIds s t) (hk : t.swaps.lookup k = some other) :
    ∃ old, s.swaps.lookup k = some old ∧ Succeeds old other := by
  obtain ⟨hout, hin⟩ := h.lookup_eq k
  by_cases hmem : k ∈ swapIds
  · obtain ⟨swap, state, hfound, _, hlast, hfinal⟩ := hin hmem
    rw [hlast] at hk
    cases hk
    exact ⟨swap, hfound, .closed state hfinal⟩
  · rw [hout hmem] at hk
    exact ⟨other, hk, .same⟩

/-- A record that is stored was stored before, or it is a proposal of the call. -/
theorem Move.origin (h : Move sha256 house i s t) {k : ℕ} {other : SwapInfo}
    (hk : t.swaps.lookup k = some other) :
    (∃ old, s.swaps.lookup k = some old ∧ Succeeds old other) ∨
    (k = s.swapCount.getD 0 ∧ ∃ terms, i.call.Proposes terms ∧
      Proposed house i.toEnv terms other s t) := by
  cases h with
  | configured call swaps transfers config =>
    rw [swaps] at hk
    exact .inl ⟨other, hk, .same⟩
  | proposed terms swap call proposed =>
    have hlookup := hk
    rw [proposed.lookup_eq] at hlookup
    split at hlookup
    · next heq =>
      cases hlookup
      exact .inr ⟨heq, terms, call, proposed⟩
    · exact .inl ⟨other, hlookup, .same⟩
  | executed taker swapId amount preimage referrer swap call executed =>
    obtain ⟨_, hfill⟩ := executed.filled
    exact .inl (hfill.succeeds hk)
  | filled swapId amount swap call filled =>
    obtain ⟨_, hfill⟩ := filled.fill
    exact .inl (hfill.succeeds hk)
  | closed swapIds closes call => exact .inl (closes.succeeds hk)

/-- The contract is set up once, and then swaps are counted. -/
theorem Move.config (h : Move sha256 house i s t) :
    (s.initialized = none ∧ t.swaps = s.swaps ∧ t.admin ≠ none) ∨
    (t.initialized = s.initialized ∧ s.swapCount.getD 0 ≤ t.swapCount.getD 0 ∧
      (s.admin ≠ none → t.admin ≠ none)) := by
  cases h with
  | configured call swaps transfers config =>
    rcases config with ⟨hnone, hadmin⟩ | ⟨hinit, hcount, hadmin⟩
    · exact .inl ⟨hnone, swaps, hadmin⟩
    · exact .inr ⟨hinit, by rw [hcount], fun _ => hadmin⟩
  | proposed terms swap call proposed =>
    rw [proposed.result]
    exact .inr ⟨rfl, Nat.le_succ _, id⟩
  | executed taker swapId amount preimage referrer swap call executed =>
    obtain ⟨_, hfill⟩ := executed.filled
    rw [hfill.result]
    exact .inr ⟨rfl, Nat.le_refl _, id⟩
  | filled swapId amount swap call filled =>
    obtain ⟨_, hfill⟩ := filled.fill
    rw [hfill.result]
    exact .inr ⟨rfl, Nat.le_refl _, id⟩
  | closed swapIds closes call =>
    have hsame := closes.sameConfig
    rw [hsame.initialized, hsame.swapCount, hsame.admin]
    exact .inr ⟨rfl, Nat.le_refl _, id⟩

theorem Sound.filled {swap : SwapInfo} {amount : ℤ} (h : Sound swap)
    (hcovered : amount ≤ swap.remainingAmount) : Sound (Swap.filled swap amount) := by
  have hsplit := h.split
  unfold Swap.filled
  refine ⟨?_, ?_, fun hpending => ?_⟩
  · dsimp only
    omega
  · dsimp only
    omega
  · dsimp only at hpending ⊢
    split at hpending
    · cases hpending
    · omega

theorem Sound.succeeds {swap other : SwapInfo} (h : Sound swap) (hnext : Succeeds swap other) :
    Sound other := by
  cases hnext with
  | same => exact h
  | filled amount covered fits => exact h.filled covered
  | closed state final => exact ⟨h.split, h.remaining, fun hpending => absurd hpending final⟩

/-- The transfers of closing: each goes back to a maker, and no escrow is left out. -/
theorem Closes.log {swapIds : List ℕ} (h : Closes house swapIds s t)
    (hs : ∀ k swap, s.swaps.lookup k = some swap → Sound swap) :
    ∃ log, t.transfers = s.transfers ++ log ∧
      (∀ x ∈ log, ∃ k ∈ swapIds, ∃ swap, s.swaps.lookup k = some swap ∧
        x.purpose = .refund k ∧ x.target = swap.partyA) ∧
      ∀ k ∈ swapIds, ∀ swap, s.swaps.lookup k = some swap → swap.escrowed = true →
        ∃ x ∈ log, x.source = house ∧ x.purpose = .refund k := by
  induction h with
  | nil s => exact ⟨[], by simp, by simp, by simp⟩
  | cons swap remaining state found pending final rest next ih =>
    rename_i swapId swapIds s u
    have hsound := hs _ _ found
    obtain ⟨log, hlog, hback, hall⟩ := ih fun k other hk => by
      rw [lookup_closed] at hk
      split at hk
      · cases hk
        exact hsound.succeeds (.closed state final)
      · exact hs k other hk
    refine ⟨refund house swapId swap remaining ++ log, ?_, ?_, ?_⟩
    · rw [hlog]
      exact List.append_assoc _ _ _
    · intro x hx
      rcases List.mem_append.mp hx with hx | hx
      · refine ⟨swapId, List.mem_cons_self, swap, found, ?_⟩
        unfold refund at hx
        split at hx
        · rw [eq_of_mem_positive hx]
          exact ⟨rfl, rfl⟩
        · cases hx
      · obtain ⟨k, hk, other, hfound, hpurpose, htarget⟩ := hback x hx
        rw [lookup_closed] at hfound
        split at hfound
        · next heq =>
          cases hfound
          exact ⟨k, List.mem_cons_of_mem _ hk, swap, heq ▸ found, hpurpose, htarget⟩
        · exact ⟨k, List.mem_cons_of_mem _ hk, other, hfound, hpurpose, htarget⟩
    · intro k hk other hfound hescrowed
      by_cases heq : k = swapId
      · subst heq
        obtain rfl := Option.some_inj.mp (found.symm.trans hfound)
        have hpos := hsound.open_ pending
        have hsplit := hsound.split
        have hamount : 0 < remaining := by
          rcases rest hescrowed with h | h <;> omega
        have hback : refund house k swap remaining =
            [⟨.refund k, swap.tokenA, house, swap.partyA, remaining⟩] := by
          rw [refund, if_pos hescrowed, positive, if_pos hamount]
        rw [hback]
        exact ⟨_, List.mem_append_left _ (List.mem_singleton_self _), rfl, rfl⟩
      · have hlater : k ∈ swapIds := (List.mem_cons.mp hk).resolve_left heq
        rw [← lookup_closed_of_ne heq] at hfound
        obtain ⟨x, hx, hpaid⟩ := hall k hlater other hfound hescrowed
        exact ⟨x, List.mem_append_right _ hx, hpaid⟩

theorem Proposed.sound {env : Env} {terms : Terms} {swap : SwapInfo}
    (h : Proposed house env terms swap s t) : Sound swap := by
  obtain ⟨_, _, hamount⟩ := h.terms_eq
  obtain ⟨_, hfilled, hremaining⟩ := h.fresh
  have hpos := h.positive
  exact ⟨by omega, by omega, fun _ => by omega⟩

theorem Regular.step (hs : Regular s) (h : exec sha256 house i s = .ok t) : Regular t := by
  have hmove := exec_move h
  have hsound : ∀ k swap, t.swaps.lookup k = some swap → Sound swap := by
    intro k swap hk
    rcases hmove.origin hk with ⟨old, hold, hnext⟩ | ⟨_, terms, _, hproposed⟩
    · exact (hs.sound k old hold).succeeds hnext
    · exact hproposed.sound
  rcases hmove.config with ⟨hnone, hswaps, hadmin⟩ | ⟨hinit, hcount, hadmin⟩
  · -- nothing is stored before the contract is set up
    have hempty : ∀ k swap, t.swaps.lookup k ≠ some swap := by
      intro k swap hk
      rw [hswaps] at hk
      exact hs.initialized k swap hk hnone
    exact ⟨hsound, fun k swap hk => absurd hk (hempty k swap),
      fun k swap hk => absurd hk (hempty k swap), fun _ => hadmin⟩
  · refine ⟨hsound, fun k swap hk => ?_, fun k swap hk => ?_, fun hset => ?_⟩
    · rcases hmove.origin hk with ⟨old, hold, _⟩ | ⟨rfl, terms, _, hproposed⟩
      · exact Nat.lt_of_lt_of_le (hs.counted k old hold) hcount
      · rw [hproposed.result]
        exact Nat.lt_succ_self _
    · rw [hinit]
      rcases hmove.origin hk with ⟨old, hold, _⟩ | ⟨_, terms, _, hproposed⟩
      · exact hs.initialized k old hold
      · exact hproposed.initialized
    · rw [hinit] at hset
      exact hadmin (hs.admin hset)

end Regularity

end SorobanKit.Swap
