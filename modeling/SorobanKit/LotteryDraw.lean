import Mathlib.Data.Finset.Card
import Mathlib.Data.List.Dedup
import SorobanKit.LotteryContract

set_option autoImplicit false

/-!
# A draw

As long as fewer winners are drawn than there are participants, somebody's tickets are left in the
pool, so a draw finds all its winners.
-/
namespace SorobanKit.Lottery
open HostInvocation

section Participants
variable {pool seen : List Address} {a : Address}

theorem foldl_see (hseen : seen.Nodup) :
    (pool.foldl see seen).Nodup ∧ ∀ a, a ∈ pool.foldl see seen ↔ a ∈ seen ∨ a ∈ pool := by
  induction pool generalizing seen with
  | nil => exact ⟨hseen, fun a => by simp⟩
  | cons p pool ih =>
    have hnext : (see seen p).Nodup ∧ ∀ a, a ∈ see seen p ↔ a ∈ seen ∨ a = p := by
      unfold see
      split
      · next hmem =>
        refine ⟨hseen, fun a => (or_iff_left_of_imp ?_).symm⟩
        rintro rfl
        exact hmem
      · next hnew =>
        refine ⟨?_, fun a => by simp⟩
        rw [List.nodup_append]
        refine ⟨hseen, List.nodup_singleton p, fun x hx y hy => ?_⟩
        rw [List.mem_singleton.mp hy]
        rintro rfl
        exact hnew hx
    obtain ⟨hnodup, hmem⟩ := ih hnext.1
    refine ⟨hnodup, fun a => ?_⟩
    rw [List.foldl_cons, hmem a, hnext.2 a, List.mem_cons, or_assoc]

/-- The loop counts the addresses of the pool. -/
theorem distinct_length (pool : List Address) : (distinct pool).length = pool.toFinset.card := by
  have hseen : (pool.foldl see []).Nodup ∧ ∀ a, a ∈ pool.foldl see [] ↔ a ∈ [] ∨ a ∈ pool :=
    foldl_see List.nodup_nil
  obtain ⟨hnodup, hmem⟩ := hseen
  rw [distinct, ← List.toFinset_card_of_nodup hnodup]
  congr 1
  ext a
  rw [List.mem_toFinset, List.mem_toFinset, hmem a]
  simp

theorem rebuildPool_returns {totalTickets : ℕ} {s : State}
    (hstored : ∀ idx < totalTickets, ∃ p, s.participant.lookup idx = some p) :
    ∃ pool, rebuildPool totalTickets s = .ok pool ∧
      ∀ p ∈ pool, ∃ idx < totalTickets, s.participant.lookup idx = some p := by
  have hitems : ∀ idx ∈ List.range totalTickets,
      ∃ p, (unwrap (s.participant.lookup idx) : Result LotteryError Address) = .ok p := by
    intro idx hidx
    obtain ⟨p, hp⟩ := hstored idx (List.mem_range.mp hidx)
    exact ⟨p, unwrap_eq_ok.mpr hp⟩
  obtain ⟨pool, hpool, hall⟩ := mapM_returns hitems
  refine ⟨pool, hpool, fun p hp => ?_⟩
  obtain ⟨idx, hidx, hlookup⟩ := hall p hp
  exact ⟨idx, List.mem_range.mp hidx, unwrap_eq_ok.mp hlookup⟩

end Participants

section Winners
variable {ctx : Context} {sha256 : Bytes → Bytes32} {secret salt : Bytes32} {pool : List Address}
  {winnerCount : ℕ}

/-- After `round` rounds: as many winners, whose tickets have left the pool. -/
structure Selected (pool : List Address) (round : ℕ) (acc : List Address × List Address) : Prop where
  length : acc.1.length = round
  nodup : acc.1.Nodup
  holders : ∀ w ∈ acc.1, w ∈ pool
  rest : ∀ p, p ∈ acc.2 ↔ p ∈ pool ∧ p ∉ acc.1

theorem Selected.pool_ne_nil {round : ℕ} {acc : List Address × List Address}
    (h : Selected pool round acc) (hless : round < pool.toFinset.card) : acc.2 ≠ [] := by
  intro hempty
  have hsub : pool.toFinset ⊆ acc.1.toFinset := by
    intro p hp
    rw [List.mem_toFinset] at hp ⊢
    by_contra hout
    have hrest := (h.rest p).mpr ⟨hp, hout⟩
    rw [hempty] at hrest
    cases hrest
  have hcard := Finset.card_le_card hsub
  rw [List.toFinset_card_of_nodup h.nodup, h.length] at hcard
  omega

theorem selectRound_returns {round : ℕ} {acc : List Address × List Address}
    (h : Selected pool round acc) (hless : round < pool.toFinset.card) :
    ∃ next, selectRound ctx sha256 secret salt acc round = .ok next ∧
      Selected pool (round + 1) next := by
  obtain ⟨winners, rest⟩ := acc
  have hlength : 0 < rest.length := List.length_pos_iff.mpr (h.pool_ne_nil hless)
  let entropy := entropyHash sha256 secret salt (roundExtra ctx round)
  let idx := fromBeBytes (entropy.toList.drop 24) % rest.length
  have hidx : idx < rest.length := Nat.mod_lt _ hlength
  have hmem : rest[idx] ∈ rest := List.getElem_mem hidx
  obtain ⟨hticket, hnew⟩ := (h.rest _).mp hmem
  refine ⟨(winners ++ [rest[idx]], rest.filter (· ≠ rest[idx])), ?_, ?_⟩
  · simp only [selectRound, entropyIndex, bind_eq_ok, trapUnless_eq_ok, unwrap_eq_ok, pure_eq_ok]
    exact ⟨idx, ⟨(), hlength.ne', rfl⟩, rest[idx], List.getElem?_eq_getElem hidx, rfl⟩
  · refine ⟨?_, ?_, ?_, fun p => ?_⟩
    · rw [List.length_append, List.length_singleton, h.length]
    · rw [List.nodup_append]
      refine ⟨h.nodup, List.nodup_singleton _, fun x hx y hy => ?_⟩
      rw [List.mem_singleton.mp hy]
      rintro rfl
      exact hnew hx
    · rw [List.forall_mem_append, List.forall_mem_singleton]
      exact ⟨h.holders, hticket⟩
    · have hrest := h.rest p
      simp only [List.mem_filter, hrest, decide_eq_true_eq, List.mem_append, List.mem_singleton,
        not_or, and_assoc]

/-- With enough participants the loop finds different winners, each of which holds a ticket. -/
theorem selectWinners_returns (hcount : winnerCount ≤ pool.toFinset.card) :
    ∃ winners, selectWinners ctx sha256 secret salt winnerCount pool = .ok winners ∧
      winners.length = winnerCount ∧ winners.Nodup ∧ ∀ w ∈ winners, w ∈ pool := by
  have hstart : Selected pool 0 ([], pool) :=
    ⟨rfl, List.nodup_nil, fun _ hw => (List.not_mem_nil hw).elim, fun p => by simp⟩
  have hstep : ∀ round acc, round < winnerCount → Selected pool round acc →
      ∃ next, selectRound ctx sha256 secret salt acc round = .ok next ∧
        Selected pool (round + 1) next :=
    fun round acc hround h => selectRound_returns h (Nat.lt_of_lt_of_le hround hcount)
  obtain ⟨acc, hfold, h⟩ := foldlM_range_returns hstart hstep
  refine ⟨acc.1, ?_, h.length, h.nodup, h.holders⟩
  simp only [selectWinners, bind_eq_ok, pure_eq_ok]
  exact ⟨acc, hfold, rfl⟩

end Winners

end SorobanKit.Lottery
