import Mathlib.Algebra.BigOperators.Group.List.Basic
import SorobanKit.BallotContract

set_option autoImplicit false

/-!
# What ballots do to the tallies

All three ways to vote end in `record_vote`, so the tallies are the sums of the ballots that were
counted, by choice and altogether.
-/
namespace SorobanKit.Ballot
open HostBalances HostInteger HostInvocation

variable {Hash : Type} {s t : State Hash} {voter : Address} {choice amount : ℕ}

/-- What a counter of binary ballots gains. -/
def gain (counter choice amount : ℕ) : ℤ := if choice = counter then amount else 0

structure Recorded (choice amount : ℕ) (s t : State Hash) : Prop where
  noVotes : t.noVotes.getD 0 = s.noVotes.getD 0 + gain 0 choice amount
  yesVotes : t.yesVotes.getD 0 = s.yesVotes.getD 0 + gain 1 choice amount
  result : t = { s with
    choiceVotes := credit s.choiceVotes choice amount
    totalVotes := some (s.totalVotes.getD 0 + amount), noVotes := t.noVotes, yesVotes := t.yesVotes }

theorem addVotes_eq_ok {x : Option ℤ} {a b : ℤ} :
    addVotes x a = .ok b ↔ InI128 (x.getD 0 + a) ∧ x.getD 0 + a = b := by
  rw [addVotes, unwrap_eq_ok, checkedAdd_eq_some]

theorem recordBinary_ok (h : recordBinary choice amount s = .ok t) :
    t.noVotes.getD 0 = s.noVotes.getD 0 + gain 0 choice amount ∧
    t.yesVotes.getD 0 = s.yesVotes.getD 0 + gain 1 choice amount ∧
    t = { s with noVotes := t.noVotes, yesVotes := t.yesVotes } := by
  unfold recordBinary at h
  unfold gain
  split at h
  · next hno =>
    simp only [bind_eq_ok, addVotes_eq_ok, pure_eq_ok] at h
    obtain ⟨_, ⟨_, rfl⟩, rfl⟩ := h
    simp [hno]
  · next hno =>
    split at h
    · next hyes =>
      simp only [bind_eq_ok, addVotes_eq_ok, pure_eq_ok] at h
      obtain ⟨_, ⟨_, rfl⟩, rfl⟩ := h
      simp [hyes]
    · next hyes =>
      rw [pure_eq_ok] at h
      subst h
      simp [hno, hyes]

theorem recordVote_ok (h : recordVote choice amount s = .ok t) : Recorded choice amount s t := by
  simp only [recordVote, bind_eq_ok, addVotes_eq_ok, pure_eq_ok] at h
  obtain ⟨_, ⟨_, rfl⟩, u, hbinary, _, ⟨_, rfl⟩, rfl⟩ := h
  obtain ⟨hno, hyes, hu⟩ := recordBinary_ok hbinary
  refine ⟨hno, hyes, ?_⟩
  rw [hu]
  rfl

/-- One more ballot of `voter` in the tallies, and nothing else. -/
structure CountedFor (voter : Address) (choice amount : ℕ) (s t : State Hash) : Prop where
  noVotes : t.noVotes.getD 0 = s.noVotes.getD 0 + gain 0 choice amount
  yesVotes : t.yesVotes.getD 0 = s.yesVotes.getD 0 + gain 1 choice amount
  result : t = { s with
    choiceVotes := credit s.choiceVotes choice amount
    totalVotes := some (s.totalVotes.getD 0 + amount), noVotes := t.noVotes, yesVotes := t.yesVotes
    counted := s.counted ++ [⟨voter, choice, amount, voterWeight voter s⟩] }

theorem countVote_ok (h : countVote voter choice amount s = .ok t) :
    CountedFor voter choice amount s t := by
  simp only [countVote, bind_eq_ok, pure_eq_ok] at h
  obtain ⟨u, hrecord, rfl⟩ := h
  have hu := recordVote_ok hrecord
  refine ⟨hu.noVotes, hu.yesVotes, ?_⟩
  rw [hu.result]

def amounts (ballots : List Counted) : ℤ := (ballots.map Counted.amount).sum

def forChoice (choice : ℕ) (ballots : List Counted) : List Counted :=
  ballots.filter fun b => b.choice = choice

/-- The stored tallies are the sums of the ballots that were counted. -/
structure Tallied (s : State Hash) : Prop where
  total : s.totalVotes.getD 0 = amounts s.counted
  choice : ∀ choice, entry s.choiceVotes choice = amounts (forChoice choice s.counted)
  no : s.noVotes.getD 0 = amounts (forChoice 0 s.counted)
  yes : s.yesVotes.getD 0 = amounts (forChoice 1 s.counted)

@[simp] theorem amounts_concat (ballots : List Counted) (b : Counted) :
    amounts (ballots ++ [b]) = amounts ballots + b.amount := by
  simp [amounts]

theorem amounts_forChoice_concat (counter : ℕ) (ballots : List Counted) (b : Counted) :
    amounts (forChoice counter (ballots ++ [b])) =
      amounts (forChoice counter ballots) + if b.choice = counter then b.amount else 0 := by
  unfold forChoice
  rw [List.filter_append]
  split <;> simp [*]

theorem tallied_empty : Tallied ({} : State Hash) where
  total := rfl
  choice _ := rfl
  no := rfl
  yes := rfl

theorem CountedFor.tallied (h : CountedFor voter choice amount s t) (hs : Tallied s) :
    Tallied t := by
  have hcounted : t.counted = s.counted ++ [⟨voter, choice, amount, voterWeight voter s⟩] := by
    rw [h.result]
  refine ⟨?_, fun counter => ?_, ?_, ?_⟩
  · rw [hcounted, amounts_concat, ← hs.total, h.result]
    rfl
  · have hentry : entry t.choiceVotes counter =
        entry s.choiceVotes counter + if choice = counter then (amount : ℤ) else 0 := by
      rw [h.result]
      dsimp only
      rw [entry_credit]
      simp only [eq_comm]
    rw [hcounted, amounts_forChoice_concat, ← hs.choice, hentry]
  · rw [hcounted, amounts_forChoice_concat, ← hs.no, h.noVotes]
    rfl
  · rw [hcounted, amounts_forChoice_concat, ← hs.yes, h.yesVotes]
    rfl

end SorobanKit.Ballot
