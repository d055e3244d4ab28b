import SorobanKit.CommonPageReads
import SorobanKit.SwapMoves

set_option autoImplicit false

/-!
# Pages of active swaps

`get_active_swaps` gives the swaps that are pending and not expired, a page at a time. A caller
that follows the cursors sees every page in the state of its own call, and swaps are proposed,
filled and closed in between.
-/
namespace SorobanKit.Swap
open CommonPages CommonPageReads HostInteger HostInvocation HostRuns

def maxSwapsPageSize : ℕ := 50

/-- The swap of that number, if it is pending and `sequence` is not past its deadline. -/
def activeSwap (s : State) (sequence swapId : ℕ) : Option SwapInfo :=
  (s.swaps.lookup swapId).filter fun swap =>
    decide (swap.state = .pending ∧ sequence ≤ swap.expiresAt)

def swapView (s : State) (sequence : ℕ) : View SwapInfo where
  count := s.swapCount.getD 0
  find := activeSwap s sequence

def getActiveSwaps (sequence cursor limit : ℕ) (s : State) : Option (Page SwapInfo ℕ) :=
  (swapView s sequence).page cursor limit maxSwapsPageSize

/-- Calls of `get_active_swaps` in a run of the contract, each at a ledger of its own. -/
def readActiveSwaps (sha256 : Bytes32 → Bytes32) (house : Address) (s : State)
    (reads : List (PageRead Invocation ℕ)) : Option (List (Reading State ℕ SwapInfo)) :=
  readAlong (exec sha256 house) swapView maxSwapsPageSize s 0 reads

section Numbers
variable {sha256 : Bytes32 → Bytes32} {house : Address} {i : Invocation} {s t : State}

/-- A swap knows its number, and the numbers fit the counter. -/
structure Listed (s : State) : Prop extends Regular s where
  named : ∀ k swap, s.swaps.lookup k = some swap → swap.id = k
  bounded : s.swapCount.getD 0 ≤ u32Max

theorem proposed_number {env : Env} {terms : Terms} {allowPartialFills escrowed : Bool}
    {hashLock : Option Bytes32} {swapId : ℕ}
    (h : proposeSwapWithOptions house env terms allowPartialFills escrowed hashLock s =
      .ok (swapId, t)) :
    t.swapCount.getD 0 ≤ u32Max ∧
      ∀ swap ∈ t.swaps.lookup (s.swapCount.getD 0), swap.id = s.swapCount.getD 0 := by
  simp only [proposeSwapWithOptions, bind_eq_ok, okOr_eq_ok, checkedAddU32_eq_some,
    pure_eq_ok] at h
  obtain ⟨_, _, _, _, _, _, _, _, _, _, _, ⟨hbound, rfl⟩, u, hpull, hresult⟩ := h
  obtain rfl := pullEscrow_ok hpull
  obtain ⟨_, rfl⟩ := Prod.mk.inj hresult
  refine ⟨hbound, fun swap hswap => ?_⟩
  rw [Option.mem_def] at hswap
  dsimp only at hswap
  rw [lookup_putSwap, if_pos rfl] at hswap
  cases hswap
  rfl

theorem exec_proposes {terms : Terms} (hcall : i.call.Proposes terms)
    (h : exec sha256 house i s = .ok t) :
    t.swapCount.getD 0 ≤ u32Max ∧
      ∀ swap ∈ t.swaps.lookup (s.swapCount.getD 0), swap.id = s.swapCount.getD 0 := by
  rcases hcall with hcall | ⟨allowPartialFills, escrowed, hashLock, hcall⟩
  · simp only [exec, hcall, proposeSwap, bind_eq_ok, pure_eq_ok] at h
    obtain ⟨⟨swapId, u⟩, hpropose, rfl⟩ := h
    exact proposed_number hpropose
  · simp only [exec, hcall, bind_eq_ok, pure_eq_ok] at h
    obtain ⟨⟨swapId, u⟩, hpropose, rfl⟩ := h
    exact proposed_number hpropose

theorem Succeeds.id_eq {swap other : SwapInfo} (h : Succeeds swap other) : other.id = swap.id := by
  cases h with
  | same => rfl
  | filled amount covered fits => rfl
  | closed state final => rfl

theorem exec_count (h : exec sha256 house i s = .ok t) :
    t.swapCount.getD 0 = s.swapCount.getD 0 ∨ t.swapCount.getD 0 ≤ u32Max := by
  cases exec_move h with
  | configured call swaps transfers config =>
    cases hcall : i.call with
    | initializeSwaps admin treasury feeBps =>
      simp only [exec, hcall, initializeSwaps, bind_eq_ok, pure_eq_ok] at h
      obtain ⟨_, _, _, _, _, _, rfl⟩ := h
      exact .inr (Nat.zero_le _)
    | setTreasury newTreasury =>
      simp only [exec, hcall, setTreasury, bind_eq_ok, pure_eq_ok] at h
      obtain ⟨_, _, rfl⟩ := h
      exact .inl rfl
    | setFeeBps newFeeBps =>
      simp only [exec, hcall, setFeeBps, bind_eq_ok, pure_eq_ok] at h
      obtain ⟨_, _, _, _, rfl⟩ := h
      exact .inl rfl
    | setAdmin newAdmin =>
      simp only [exec, hcall, setAdmin, bind_eq_ok, pure_eq_ok] at h
      obtain ⟨_, _, rfl⟩ := h
      exact .inl rfl
    | proposeSwap terms => exact .inr (exec_proposes (.inl hcall) h).1
    | proposeSwapWithOptions terms allowPartialFills escrowed hashLock =>
      exact .inr (exec_proposes (.inr ⟨_, _, _, hcall⟩) h).1
    | acceptSwap | executeSwap | fillSwapPartial | cancelSwap | refundHashlockedSwap | expireSwap
    | cancelSwapsBatch => simp [hcall, Call.Manages] at call
  | proposed terms swap call proposed => exact .inr (exec_proposes call h).1
  | executed taker swapId amount preimage referrer swap call executed =>
    obtain ⟨_, hfill⟩ := executed.filled
    rw [hfill.result]
    exact .inl rfl
  | filled swapId amount swap call filled =>
    obtain ⟨_, hfill⟩ := filled.fill
    rw [hfill.result]
    exact .inl rfl
  | closed swapIds closes call =>
    rw [closes.sameConfig.swapCount]
    exact .inl rfl

theorem Listed.step (hs : Listed s) (h : exec sha256 house i s = .ok t) : Listed t := by
  refine ⟨hs.toRegular.step h, fun k swap hk => ?_, ?_⟩
  · rcases (exec_move h).origin hk with ⟨old, hold, hnext⟩ | ⟨rfl, terms, hcall, _⟩
    · rw [hnext.id_eq]
      exact hs.named k old hold
    · exact (exec_proposes hcall h).2 swap hk
  · rcases exec_count h with hsame | hbound
    · rw [hsame]
      exact hs.bounded
    · exact hbound

theorem listed_empty : Listed ({} : State) where
  toRegular := regular_empty
  named _ _ h := by cases h
  bounded := Nat.zero_le _

theorem Listed.run (hs : Listed s) (is : List Invocation) :
    Listed (HostRuns.run (exec sha256 house) s is) :=
  run_invariant (fun _ _ _ hs h => hs.step h) hs is

theorem activeSwap_eq_some {sequence swapId : ℕ} {swap : SwapInfo} :
    activeSwap s sequence swapId = some swap ↔
      s.swaps.lookup swapId = some swap ∧ swap.state = .pending ∧ sequence ≤ swap.expiresAt := by
  rw [activeSwap, Option.filter_eq_some_iff, decide_eq_true_eq]

theorem Listed.numbered (hs : Listed s) (sequence : ℕ) :
    (swapView s sequence).Numbered SwapInfo.id where
  bounded := hs.bounded
  below k swap hk := hs.counted k swap (activeSwap_eq_some.mp hk).1
  named k swap hk := hs.named k swap (activeSwap_eq_some.mp hk).1

end Numbers

/-- Following the cursors of `get_active_swaps` from any state of a run, with any invocations between
    the calls and any limits: the calls return; numbers ascend, so no swap is read twice; a swap read
    is the stored one, pending and in time; when the end is reached, each swap that was active at
    every call has been read; and it is reached by more calls than there are swaps. -/
theorem active_swaps_read_once (sha256 : Bytes32 → Bytes32) (house : Address) (is : List Invocation)
    (reads : List (PageRead Invocation ℕ)) :
    ∃ readings, readActiveSwaps sha256 house (run sha256 house is) reads = some readings ∧
      ((readings.flatMap fun r => r.page.items).map SwapInfo.id).Pairwise (· < ·) ∧
      (∀ r ∈ readings, ∀ swap ∈ r.page.items, r.state.swaps.lookup swap.id = some swap ∧
        swap.state = .pending ∧ r.query ≤ swap.expiresAt) ∧
      ((∃ r ∈ readings, r.page.nextCursor = none) → ∀ swapId,
        (∀ r ∈ readings, (activeSwap r.state r.query swapId).isSome) →
        ∃ r ∈ readings, ∃ swap ∈ r.page.items, swap.id = swapId) ∧
      ∀ n, n < reads.length → (∀ r ∈ readings, r.state.swapCount.getD 0 ≤ n) →
        ∃ r ∈ readings, r.page.nextCursor = none := by
  have hstep : ∀ s i t, Listed s → exec sha256 house i s = .ok t → Listed t :=
    fun _ _ _ hs h => hs.step h
  have hview : ∀ s sequence, Listed s → (swapView s sequence).Numbered SwapInfo.id :=
    fun _ sequence hs => hs.numbered sequence
  have hmax : 1 ≤ maxSwapsPageSize := by decide
  have hs : Listed (run sha256 house is) := listed_empty.run is
  obtain ⟨readings, hreadings, honce⟩ := readAlong_reads hstep hview hmax hs 0 reads
  refine ⟨readings, hreadings, honce.ascending, ?_, ?_, ?_⟩
  · intro r hr swap hswap
    exact activeSwap_eq_some.mp (honce.found r hr swap hswap).2
  · intro hend swapId hactive
    exact honce.complete hend swapId (Nat.zero_le _) hactive
  · intro n hcalls hcounts
    exact readAlong_ends hstep hview hmax hs hcounts (Nat.zero_le _) (by omega) hreadings

end SorobanKit.Swap
