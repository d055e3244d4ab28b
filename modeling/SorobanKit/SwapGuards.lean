import SorobanKit.SwapEscrow

set_option autoImplicit false

/-!
# Hash locks, takers and delays

A hash-locked escrow is meant to leave the contract for a preimage in time, and for its maker after
the deadline. `execute_swap` checks the lock, the taker and the delay, and `refund_hashlocked_swap`
waits for the deadline. `fill_swap_partial` checks none of the three, and `cancel_swap` and
`cancel_swaps_batch` do not look at the lock.
-/
namespace SorobanKit.Swap
open CommonMath HostInteger HostInvocation HostTransfers
open HostRuns (Entry)

/-- More of the swap is filled. -/
def Grows (k : ℕ) (e : Entry State Invocation) : Prop :=
  ∃ old new, e.before.swaps.lookup k = some old ∧ e.after.swaps.lookup k = some new ∧
    old.filledAmount < new.filledAmount

/-- The contract pays what is offered in the swap, to a taker or back. -/
def FromEscrow (house : Address) (k : ℕ) (x : Transfer Purpose) : Prop :=
  x.source = house ∧ (x.purpose = .fill k ∨ x.purpose = .refund k)

def Leaves (house : Address) (k : ℕ) (e : Entry State Invocation) : Prop :=
  ∃ x ∈ made e, FromEscrow house k x

def Reveals (sha256 : Bytes32 → Bytes32) (lock : Bytes32) (k : ℕ) (call : Call) : Prop :=
  ∃ taker amount preimage referrer,
    call = .executeSwap taker k amount (some preimage) referrer ∧ sha256 preimage = lock

structure Guarded (sha256 : Bytes32 → Bytes32) (house : Address) (e : Entry State Invocation) :
    Prop where
  locked : ∀ k swap, e.before.swaps.lookup k = some swap → swap.escrowed = true →
    ∀ lock, swap.hashLock = some lock → e.invocation.sequence ≤ swap.expiresAt →
      Grows k e ∨ Leaves house k e → Reveals sha256 lock k e.invocation.call
  returned : ∀ k swap, e.before.swaps.lookup k = some swap → swap.escrowed = true →
    swap.hashLock ≠ none → swap.expiresAt < e.invocation.sequence →
      ∀ x ∈ made e, FromEscrow house k x → x.target = swap.partyA
  timely : ∀ k swap, e.before.swaps.lookup k = some swap → Grows k e →
    e.invocation.sequence ≤ swap.expiresAt ∧
    (∀ maxDelay ∈ swap.maxExecutionDelay,
      e.invocation.sequence ≤ saturatingAddU32 swap.createdAt maxDelay) ∧
    ∀ allowed ∈ swap.allowedCounterparty, allowed ∈ e.invocation.auths

/-- A hash-locked escrow is past its deadline. -/
def Due (k : ℕ) (s : State) (sequence : ℕ) : Prop :=
  ∀ swap ∈ s.swaps.lookup k, swap.escrowed = true → swap.hashLock ≠ none →
    swap.expiresAt < sequence

/-- Partial fills are of swaps that are not locked, in time and with the taker's consent, and makers
    cancel a hash-locked escrow after its deadline. -/
def Disciplined (s : State) (i : Invocation) : Prop :=
  match i.call with
  | .fillSwapPartial swapId _ => ∀ swap ∈ s.swaps.lookup swapId,
      (swap.escrowed = true → swap.hashLock = none) ∧
      (∀ maxDelay ∈ swap.maxExecutionDelay,
        i.sequence ≤ saturatingAddU32 swap.createdAt maxDelay) ∧
      ∀ allowed ∈ swap.allowedCounterparty, allowed ∈ i.auths
  | .cancelSwap swapId => Due swapId s i.sequence
  | .cancelSwapsBatch _ swapIds => ∀ swapId ∈ swapIds, Due swapId s i.sequence
  | _ => True

section Fills
variable {sha256 : Bytes32 → Bytes32} {house : Address} {env : Env} {i : Invocation} {s t : State}
  {swapId k : ℕ} {swap : SwapInfo} {amount : ℤ} {log : List (Transfer Purpose)}
  {x : Transfer Purpose}

theorem feeLog_purpose {tokenB treasury : Address} {referrer : Option Address} {fee : ℤ}
    (h : x ∈ feeLog house swapId tokenB treasury referrer fee) :
    x.purpose = .referral swapId ∨ x.purpose = .fee swapId := by
  unfold feeLog at h
  split at h
  · cases referrer with
    | none =>
      rw [List.mem_singleton.mp h]
      exact .inr rfl
    | some referrer =>
      rcases List.mem_append.mp h with h | h
      · rw [eq_of_mem_positive h]
        exact .inl rfl
      · rw [eq_of_mem_positive h]
        exact .inr rfl
  · cases h

theorem checkHashLock_ok {preimage hashLock : Option Bytes32}
    (h : checkHashLock sha256 preimage hashLock = .ok ()) :
    ∀ lock, hashLock = some lock → ∃ revealed, preimage = some revealed ∧ sha256 revealed = lock := by
  rintro lock rfl
  simp only [checkHashLock, bind_eq_ok, okOr_eq_ok, rejectIf_eq_ok, ne_eq, Decidable.not_not] at h
  exact h

theorem checkGuards_ok {taker : Address} {preimage : Option Bytes32}
    (h : checkGuards sha256 env taker preimage swap = .ok ()) :
    (∀ allowed ∈ swap.allowedCounterparty, allowed = taker) ∧
    (∀ maxDelay ∈ swap.maxExecutionDelay,
      env.sequence ≤ saturatingAddU32 swap.createdAt maxDelay) ∧
    ∀ lock, swap.hashLock = some lock →
      ∃ revealed, preimage = some revealed ∧ sha256 revealed = lock := by
  simp only [checkGuards, bind_eq_ok, rejectIf_eq_ok, not_exists, not_and] at h
  obtain ⟨_, htaker, _, hdelay, hlock⟩ := h
  refine ⟨fun allowed ha => ?_, fun maxDelay hd => ?_, checkHashLock_ok hlock⟩
  · exact (Decidable.not_not.mp (htaker allowed ha)).symm
  · exact Nat.le_of_not_lt (hdelay maxDelay hd)

theorem Fill.grows_iff (h : Fill env swapId swap amount log s t) :
    Grows k ⟨s, i, t⟩ ↔ k = swapId := by
  constructor
  · rintro ⟨old, new, hold, hnew, hless⟩
    dsimp only at hold hnew
    rw [h.lookup_eq] at hnew
    by_contra hne
    rw [if_neg hne, hold] at hnew
    cases hnew
    exact absurd hless (Int.lt_irrefl _)
  · rintro rfl
    have hpos := h.positive
    refine ⟨swap, filled swap amount, h.found, ?_, ?_⟩
    · dsimp only
      rw [h.lookup_eq, if_pos rfl]
    · dsimp only [filled]
      omega

theorem Fill.made_eq (h : Fill env swapId swap amount log s t) : made ⟨s, i, t⟩ = log := by
  apply Swap.made_eq
  rw [h.result]

/-- A fill is guarded if it meets the guards of its own swap. -/
theorem Fill.guarded (h : Fill i.toEnv swapId swap amount log s t)
    (hlog : ∀ x ∈ log, ∀ k, FromEscrow house k x → k = swapId)
    (hlock : swap.escrowed = true → ∀ lock, swap.hashLock = some lock →
      Reveals sha256 lock swapId i.call)
    (hdelay : ∀ maxDelay ∈ swap.maxExecutionDelay,
      i.sequence ≤ saturatingAddU32 swap.createdAt maxDelay)
    (hallowed : ∀ allowed ∈ swap.allowedCounterparty, allowed ∈ i.auths) :
    Guarded sha256 house ⟨s, i, t⟩ := by
  have htimely := h.timely
  have hleaves : ∀ k, Leaves house k ⟨s, i, t⟩ → k = swapId := by
    rintro k ⟨x, hx, hfrom⟩
    rw [h.made_eq] at hx
    exact hlog x hx k hfrom
  constructor
  · intro k other hk hescrowed lock hlocked _ hmove
    obtain rfl : k = swapId := hmove.elim h.grows_iff.mp (hleaves k)
    obtain rfl := Option.some_inj.mp (h.found.symm.trans hk)
    exact hlock hescrowed lock hlocked
  · intro k other hk _ _ hlate x hx hfrom
    obtain rfl : k = swapId := hleaves k ⟨x, hx, hfrom⟩
    obtain rfl := Option.some_inj.mp (h.found.symm.trans hk)
    exact absurd htimely (Nat.not_le_of_lt hlate)
  · intro k other hk hgrows
    obtain rfl := h.grows_iff.mp hgrows
    obtain rfl := Option.some_inj.mp (h.found.symm.trans hk)
    exact ⟨htimely, hdelay, hallowed⟩

theorem Executed.guarded {taker : Address} {preimage : Option Bytes32} {referrer : Option Address}
    (h : Executed sha256 house i.toEnv taker swapId amount preimage referrer swap s t)
    (hcall : ∀ revealed, preimage = some revealed →
      i.call = .executeSwap taker swapId amount preimage referrer) :
    Guarded sha256 house ⟨s, i, t⟩ := by
  obtain ⟨feeBps, treasury, amountB, fee, received, actualFee, _, _, _, _, _, _, hfill⟩ := h.fill
  obtain ⟨htaker, hdelay, hlock⟩ := checkGuards_ok h.guards
  refine hfill.guarded ?_ ?_ hdelay ?_
  · rintro x hx k ⟨_, hpurpose⟩
    simp only [List.mem_cons, List.mem_append, List.not_mem_nil, or_false] at hx
    rcases hx with rfl | (hx | hx) | rfl
    · simp [payment] at hpurpose
    · simp [eq_of_mem_positive hx, proceeds] at hpurpose
    · rcases feeLog_purpose hx with hfee | hfee <;> simp [hfee] at hpurpose
    · simp only [delivery, Purpose.fill.injEq, reduceCtorEq, or_false] at hpurpose
      exact hpurpose.symm
  · intro _ lock hlocked
    obtain ⟨revealed, rfl, hdigest⟩ := hlock lock hlocked
    exact ⟨taker, amount, revealed, referrer, hcall revealed rfl, hdigest⟩
  · intro allowed hallowed
    rw [htaker allowed hallowed]
    exact h.auth

theorem FilledPartially.guarded_iff (h : FilledPartially house i.toEnv swapId amount swap s t)
    (hcall : i.call = .fillSwapPartial swapId amount) :
    Guarded sha256 house ⟨s, i, t⟩ ↔ Disciplined s i := by
  obtain ⟨amountB, hfill⟩ := h.fill
  have hdisciplined : Disciplined s i ↔ (swap.escrowed = true → swap.hashLock = none) ∧
      (∀ maxDelay ∈ swap.maxExecutionDelay,
        i.sequence ≤ saturatingAddU32 swap.createdAt maxDelay) ∧
      ∀ allowed ∈ swap.allowedCounterparty, allowed ∈ i.auths := by
    simp only [Disciplined, hcall, hfill.found, Option.mem_some_iff, forall_eq']
  rw [hdisciplined]
  constructor
  · intro hguarded
    have hgrows : Grows swapId ⟨s, i, t⟩ := hfill.grows_iff.mpr rfl
    obtain ⟨_, hdelay, hallowed⟩ := hguarded.timely swapId swap hfill.found hgrows
    refine ⟨fun hescrowed => ?_, hdelay, hallowed⟩
    by_contra hlocked
    obtain ⟨lock, hlock⟩ := Option.ne_none_iff_exists'.mp hlocked
    obtain ⟨_, _, _, _, hother, _⟩ := hguarded.locked swapId swap hfill.found hescrowed lock hlock
      hfill.timely (.inl hgrows)
    rw [hcall] at hother
    cases hother
  · rintro ⟨hlock, hdelay, hallowed⟩
    refine hfill.guarded ?_ (fun hescrowed lock hlocked => ?_) hdelay hallowed
    · rintro x hx k ⟨_, hpurpose⟩
      simp only [List.mem_cons, List.not_mem_nil, or_false] at hx
      rcases hx with rfl | rfl | rfl
      · simp [payment] at hpurpose
      · simp [proceeds] at hpurpose
      · simp only [Purpose.fill.injEq, reduceCtorEq, or_false] at hpurpose
        exact hpurpose.symm
    · simp [hlock hescrowed] at hlocked

end Fills

section Ends
variable {sha256 : Bytes32 → Bytes32} {house : Address} {i : Invocation} {s t : State}
  {e : Entry State Invocation}

theorem guarded_of_quiet (hgrows : ∀ k, ¬ Grows k e) (hleaves : ∀ k, ¬ Leaves house k e) :
    Guarded sha256 house e := by
  constructor
  · intro k swap _ _ lock _ _ hmove
    exact absurd hmove (not_or.mpr ⟨hgrows k, hleaves k⟩)
  · intro k swap _ _ _ _ x hx hfrom
    exact absurd ⟨x, hx, hfrom⟩ (hleaves k)
  · intro k swap _ hmove
    exact absurd hmove (hgrows k)

theorem Closes.guarded_iff {swapIds : List ℕ} (h : Closes house swapIds s t)
    (hs : ∀ k swap, s.swaps.lookup k = some swap → Sound swap)
    (hcall : ∀ lock k, ¬ Reveals sha256 lock k i.call) :
    Guarded sha256 house ⟨s, i, t⟩ ↔ ∀ k ∈ swapIds, Due k s i.sequence := by
  obtain ⟨log, hlog, hback, hall⟩ := h.log hs
  have hmade : made ⟨s, i, t⟩ = log := made_eq hlog
  have hgrows : ∀ k, ¬ Grows k ⟨s, i, t⟩ := by
    rintro k ⟨old, new, hold, hnew, hless⟩
    obtain ⟨hout, hin⟩ := h.lookup_eq k
    by_cases hmem : k ∈ swapIds
    · obtain ⟨swap, state, hfound, _, hlast, _⟩ := hin hmem
      obtain rfl := Option.some_inj.mp (hfound.symm.trans hold)
      obtain rfl := Option.some_inj.mp (hlast.symm.trans hnew)
      exact Int.lt_irrefl _ hless
    · have hsame := (hout hmem).symm.trans hnew
      obtain rfl := Option.some_inj.mp (hold.symm.trans hsame)
      exact Int.lt_irrefl _ hless
  constructor
  · intro hguarded k hk swap hfound hescrowed hlocked
    obtain ⟨lock, hlock⟩ := Option.ne_none_iff_exists'.mp hlocked
    obtain ⟨x, hx, hsource, hpurpose⟩ := hall k hk swap hfound hescrowed
    by_contra hearly
    have hleaves : Leaves house k ⟨s, i, t⟩ := ⟨x, hmade ▸ hx, hsource, .inr hpurpose⟩
    exact hcall lock k (hguarded.locked k swap hfound hescrowed lock hlock (Nat.le_of_not_lt hearly)
      (.inr hleaves))
  · intro hdue
    have hrefund : ∀ k, ∀ x ∈ made ⟨s, i, t⟩, FromEscrow house k x → ∀ swap,
        s.swaps.lookup k = some swap → k ∈ swapIds ∧ x.target = swap.partyA := by
      rintro k x hx ⟨_, hpurpose⟩ swap hfound
      rw [hmade] at hx
      obtain ⟨j, hj, other, hother, hrefund, htarget⟩ := hback x hx
      obtain rfl : j = k := by simpa [hrefund] using hpurpose
      obtain rfl := Option.some_inj.mp (hother.symm.trans hfound)
      exact ⟨hj, htarget⟩
    constructor
    · intro k swap hfound hescrowed lock hlock htime hmove
      obtain ⟨x, hx, hfrom⟩ := hmove.resolve_left (hgrows k)
      have hlate := hdue k (hrefund k x hx hfrom swap hfound).1 swap hfound hescrowed (by simp [hlock])
      exact absurd htime (Nat.not_le_of_lt hlate)
    · intro k swap hfound _ _ _ x hx hfrom
      exact (hrefund k x hx hfrom swap hfound).2
    · intro k swap _ hmove
      exact absurd hmove (hgrows k)

theorem guarded_iff (hs : Regular s) (h : exec sha256 house i s = .ok t) :
    Guarded sha256 house ⟨s, i, t⟩ ↔ Disciplined s i := by
  cases exec_move h with
  | configured call swaps transfers config =>
    have hquiet : Guarded sha256 house ⟨s, i, t⟩ := by
      refine guarded_of_quiet ?_ ?_
      · rintro k ⟨old, new, hold, hnew, hless⟩
        dsimp only at hold hnew
        rw [swaps, hold] at hnew
        cases hnew
        exact Int.lt_irrefl _ hless
      · rintro k ⟨x, hx, _⟩
        have hnone : t.transfers = s.transfers ++ [] := by rw [transfers, List.append_nil]
        rw [made_eq hnone] at hx
        cases hx
    refine iff_of_true hquiet ?_
    unfold Disciplined
    split <;> simp_all [Call.Manages]
  | proposed terms swap call proposed =>
    have hquiet : Guarded sha256 house ⟨s, i, t⟩ := by
      refine guarded_of_quiet ?_ ?_
      · rintro k ⟨old, new, hold, hnew, hless⟩
        have hne : k ≠ s.swapCount.getD 0 := Nat.ne_of_lt (hs.counted k old hold)
        dsimp only at hold hnew
        rw [proposed.lookup_eq, if_neg hne, hold] at hnew
        cases hnew
        exact Int.lt_irrefl _ hless
      · rintro k ⟨x, hx, _, hpurpose⟩
        have htransfers := congrArg State.transfers proposed.result
        rw [made_eq htransfers] at hx
        split at hx
        · rw [List.mem_singleton.mp hx] at hpurpose
          simp at hpurpose
        · cases hx
    refine iff_of_true hquiet ?_
    rcases call with hcall | ⟨_, _, _, hcall⟩ <;> simp only [Disciplined, hcall]
  | executed taker swapId amount preimage referrer swap call executed =>
    refine iff_of_true (executed.guarded fun revealed hrevealed => ?_) ?_
    · rcases call with hcall | ⟨_, hnone, _⟩
      · exact hcall
      · rw [hnone] at hrevealed
        cases hrevealed
    · rcases call with hcall | ⟨hcall, _⟩ <;> simp only [Disciplined, hcall]
  | filled swapId amount swap call filled => exact filled.guarded_iff call
  | closed swapIds closes call =>
    have hcall : ∀ lock k, ¬ Reveals sha256 lock k i.call := by
      rintro lock k ⟨_, _, _, _, hother, _⟩
      rcases call with ⟨_, _, hcall⟩ | ⟨_, hcall⟩ | ⟨_, _, hcall | hcall, _⟩ <;>
        simp [hcall] at hother
    rw [closes.guarded_iff hs.sound hcall]
    rcases call with ⟨swapId, rfl, hcall⟩ | ⟨creator, hcall⟩ | ⟨swapId, rfl, hcall, hlate⟩
    · simp only [Disciplined, hcall, List.forall_mem_singleton]
    · simp only [Disciplined, hcall]
    · have hdue : ∀ k ∈ [swapId], Due k s i.sequence := by
        intro k hk swap hfound _ _
        rw [List.mem_singleton.mp hk] at hfound
        exact hlate swap hfound
      refine iff_of_true hdue ?_
      rcases hcall with hcall | hcall <;> simp only [Disciplined, hcall]

/-- In every run the guards hold exactly if every call that returned was disciplined. -/
theorem guards_kept_iff (sha256 : Bytes32 → Bytes32) (house : Address) (is : List Invocation) :
    (∀ e ∈ history sha256 house is, Guarded sha256 house e) ↔
      ∀ e ∈ history sha256 house is, Disciplined e.before e.invocation := by
  have hstep : ∀ e ∈ history sha256 house is,
      Guarded sha256 house e ↔ Disciplined e.before e.invocation := by
    intro e he
    obtain ⟨hs, _, h⟩ := HostRuns.history_mem (fun s i t hs _ h => Regular.step hs h) regular_empty
      (HostRuns.along_true (exec sha256 house) {} is) he
    exact guarded_iff hs h
  exact forall₂_congr hstep

end Ends

/-- A hundred for two hundred until ledger 50, behind the lock 7. -/
def demoLocked : List (ℕ × Call) :=
  [(1, .initializeSwaps demoAdmin demoTreasury 100),
    (2, .proposeSwapWithOptions (demoTerms demoMaker) true true (some 7))]

/-- The maker fills a locked swap without the preimage, or cancels it before its deadline. -/
theorem lock_bypassed_by_maker :
    ¬ (∀ e ∈ history id demoHouse (demoRun (demoLocked ++ [(4, .fillSwapPartial 0 40)])),
      Guarded id demoHouse e) ∧
    ¬ ∀ e ∈ history id demoHouse (demoRun (demoLocked ++ [(4, .cancelSwap 0)])),
      Guarded id demoHouse e := by
  constructor
  · intro h
    have hfill : ∃ e ∈ history id demoHouse (demoRun (demoLocked ++ [(4, .fillSwapPartial 0 40)])),
        e.invocation.call = .fillSwapPartial 0 40 ∧
        ∃ old ∈ e.before.swaps.lookup 0, ∃ new ∈ e.after.swaps.lookup 0,
          old.escrowed = true ∧ old.hashLock = some 7 ∧ e.invocation.sequence ≤ old.expiresAt ∧
          old.filledAmount < new.filledAmount := by
      decide +kernel
    obtain ⟨e, he, hcall, old, hold, new, hnew, hescrowed, hlock, htime, hless⟩ := hfill
    obtain ⟨_, _, _, _, hother, _⟩ :=
      (h e he).locked 0 old hold hescrowed 7 hlock htime (.inl ⟨old, new, hold, hnew, hless⟩)
    rw [hcall] at hother
    cases hother
  · intro h
    have hcancel : ∃ e ∈ history id demoHouse (demoRun (demoLocked ++ [(4, .cancelSwap 0)])),
        e.invocation.call = .cancelSwap 0 ∧
        (∃ old ∈ e.before.swaps.lookup 0,
          old.escrowed = true ∧ old.hashLock = some 7 ∧ e.invocation.sequence ≤ old.expiresAt) ∧
        ∃ x ∈ made e, x.source = demoHouse ∧ x.purpose = .refund 0 := by
      decide +kernel
    obtain ⟨e, he, hcall, ⟨old, hold, hescrowed, hlock, htime⟩, x, hx, hsource, hpurpose⟩ := hcancel
    obtain ⟨_, _, _, _, hother, _⟩ :=
      (h e he).locked 0 old hold hescrowed 7 hlock htime (.inr ⟨x, hx, hsource, .inr hpurpose⟩)
    rw [hcall] at hother
    cases hother

end SorobanKit.Swap
