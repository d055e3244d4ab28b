import SorobanKit.BallotVoters

set_option autoImplicit false

/-!
# Tallies against the total

`get_tally` reports the configured choices only. A direct vote and a blinded reveal compare their
choice with the number of choices, a reveal does not, and its ballot may be in the total alone.
-/
namespace SorobanKit.Ballot
open HostBalances HostInteger HostInvocation
open HostRuns (Entry history_invariant_along along_true)

/-- The ballots for the first `n` choices. -/
def configured (n : ℕ) (ballots : List Counted) : List Counted :=
  ballots.filter fun b => b.choice < n

@[simp] theorem amounts_cons (b : Counted) (ballots : List Counted) :
    amounts (b :: ballots) = b.amount + amounts ballots := by
  simp [amounts]

theorem amounts_forChoice_cons (counter : ℕ) (b : Counted) (ballots : List Counted) :
    amounts (forChoice counter (b :: ballots)) =
      (if b.choice = counter then b.amount else 0) + amounts (forChoice counter ballots) := by
  unfold forChoice
  by_cases h : b.choice = counter <;> simp [h]

theorem amounts_configured_cons (n : ℕ) (b : Counted) (ballots : List Counted) :
    amounts (configured n (b :: ballots)) =
      (if b.choice < n then b.amount else 0) + amounts (configured n ballots) := by
  unfold configured
  by_cases h : b.choice < n <;> simp [h]

theorem amounts_configured_succ (n : ℕ) (ballots : List Counted) :
    amounts (configured (n + 1) ballots) =
      amounts (configured n ballots) + amounts (forChoice n ballots) := by
  induction ballots with
  | nil => rfl
  | cons b ballots ih =>
    rw [amounts_configured_cons, amounts_configured_cons, amounts_forChoice_cons, ih]
    split_ifs <;> omega

theorem sum_forChoice (n : ℕ) (ballots : List Counted) :
    ((List.range n).map fun i => amounts (forChoice i ballots)).sum =
      amounts (configured n ballots) := by
  induction n with
  | zero =>
    have hnone : configured 0 ballots = [] := by simp [configured]
    rw [hnone]
    rfl
  | succ n ih =>
    rw [List.range_succ, List.map_append, List.sum_append, ih, amounts_configured_succ]
    simp

/-- The ballot is for one of the first `n` choices, or counts nothing. -/
def Counted.Within (n : ℕ) (b : Counted) : Prop := b.amount ≠ 0 → b.choice < n

theorem configured_le {n : ℕ} {ballots : List Counted} (h : ∀ b ∈ ballots, 0 ≤ b.amount) :
    amounts (configured n ballots) ≤ amounts ballots := by
  induction ballots with
  | nil => exact le_refl _
  | cons b ballots ih =>
    obtain ⟨hb, hrest⟩ := List.forall_mem_cons.mp h
    have hle := ih hrest
    rw [amounts_configured_cons, amounts_cons]
    split_ifs <;> omega

theorem configured_eq_iff {n : ℕ} {ballots : List Counted} (h : ∀ b ∈ ballots, 0 ≤ b.amount) :
    amounts ballots = amounts (configured n ballots) ↔ ∀ b ∈ ballots, b.Within n := by
  induction ballots with
  | nil => simp [configured]
  | cons b ballots ih =>
    obtain ⟨hb, hrest⟩ := List.forall_mem_cons.mp h
    have hle := configured_le (n := n) hrest
    rw [List.forall_mem_cons, ← ih hrest, amounts_configured_cons, amounts_cons, Counted.Within]
    split_ifs with hchoice
    · constructor
      · intro heq
        exact ⟨fun _ => hchoice, by omega⟩
      · intro heq
        have hsum := heq.2
        omega
    · constructor
      · intro heq
        exact ⟨fun hne => by omega, by omega⟩
      · intro heq
        have hzero : b.amount = 0 := by
          by_contra hne
          exact hchoice (heq.1 hne)
        have hsum := heq.2
        omega

section Reports
variable {Hash : Type} {s t u : State Hash}

def readCounts (s : State Hash) : Result BallotError (List ℤ) := do
  rejectIf (s.admin = none) .notInitialized
  let choices ← okOr s.choices .notInitialized
  return (List.range choices.length).map (entry s.choiceVotes)

def getTally (s : State Hash) : Result BallotError (List ℤ) := readCounts s

/-- The number of configured choices. -/
def choiceCount (s : State Hash) : ℕ := (s.choices.getD []).length

theorem readCounts_ok {counts : List ℤ} : readCounts s = .ok counts ↔
    s.admin ≠ none ∧ s.choices ≠ none ∧
      counts = (List.range (choiceCount s)).map (entry s.choiceVotes) := by
  simp only [readCounts, bind_eq_ok, rejectIf_eq_ok, okOr_eq_ok, pure_eq_ok, choiceCount]
  constructor
  · rintro ⟨_, hadmin, choices, hchoices, rfl⟩
    rw [hchoices]
    exact ⟨hadmin, by simp, rfl⟩
  · rintro ⟨hadmin, hchoices, rfl⟩
    obtain ⟨choices, hsome⟩ := Option.ne_none_iff_exists'.mp hchoices
    refine ⟨(), hadmin, choices, hsome, ?_⟩
    rw [hsome]
    rfl

/-- The counters agree with the reported tallies. -/
structure Conserved (s : State Hash) (counts : List ℤ) : Prop where
  total : s.totalVotes.getD 0 = counts.sum
  no : s.noVotes.getD 0 = entry s.choiceVotes 0
  yes : 2 ≤ counts.length → counts[1]? = some (s.yesVotes.getD 0)
  quorum : ∀ b ∈ s.counted, b.Within counts.length

theorem Tallied.sum_eq (hs : Tallied s) (n : ℕ) :
    ((List.range n).map (entry s.choiceVotes)).sum = amounts (configured n s.counted) := by
  rw [← sum_forChoice]
  congr 1
  apply List.map_congr_left
  intro i _
  exact hs.choice i

theorem Tallied.conserved_iff {counts : List ℤ} (hs : Tallied s)
    (hamounts : ∀ b ∈ s.counted, 0 ≤ b.amount) (h : getTally s = .ok counts) :
    Conserved s counts ↔ ∀ b ∈ s.counted, b.Within (choiceCount s) := by
  have hcounts := (readCounts_ok.mp h).2.2
  have hlength : counts.length = choiceCount s := by
    rw [hcounts, List.length_map, List.length_range]
  constructor
  · intro hconserved
    rw [← hlength]
    exact hconserved.quorum
  · intro hwithin
    refine ⟨?_, hs.no.trans (hs.choice 0).symm, fun htwo => ?_, ?_⟩
    · rw [hs.total, hcounts, hs.sum_eq]
      exact (configured_eq_iff hamounts).mpr hwithin
    · rw [hlength] at htwo
      have hone : (List.range (choiceCount s))[1]? = some 1 := by
        rw [List.getElem?_range (by omega)]
      rw [hcounts, List.getElem?_map, hone, hs.yes, ← hs.choice]
      rfl
    · rw [hlength]
      exact hwithin

end Reports

section Calls
variable {Hash : Type} [DecidableEq Hash] {host : Host Hash} {ctx : Context} {s t u : State Hash}
  {voter : Address} {amount : ℕ} {call : Call Hash}

/-- The condition on a call: what it reveals exists, or weighs nothing. -/
def Existing (s : State Hash) (call : Call Hash) : Prop :=
  match call with
  | .revealVote voter choice _ => choice.toNat < choiceCount s ∨ voterWeight voter s = 0
  | _ => True

/-- What a returning call does to the choices and to the ballots counted. -/
inductive Effect (call : Call Hash) (s t : State Hash) : Prop where
  | opened (fresh : s.admin = none) (admin : t.admin ≠ none) (choices : t.choices ≠ none)
      (counted : t.counted = s.counted) (existing : Existing s call)
  | kept (admin : t.admin = s.admin) (choices : t.choices = s.choices)
      (counted : t.counted = s.counted) (existing : Existing s call)
  | cast (b : Counted) (admin : t.admin = s.admin) (choices : t.choices = s.choices)
      (counted : t.counted = s.counted ++ [b]) (amount : 0 ≤ b.amount)
      (existing : Existing s call ↔ b.Within (choiceCount s))

omit [DecidableEq Hash] in
/-- A ballot that is counted, whatever its voter is marked with afterwards. -/
theorem CountedFor.effect {choice : ℕ} (hu : CountedFor voter choice amount s u)
    (ht : t = { u with
      hasVoted := t.hasVoted, commitment := t.commitment, revealed := t.revealed
      commitmentHash := t.commitmentHash, revealedCommitment := t.revealedCommitment })
    (hexisting : Existing s call ↔ (amount ≠ 0 → choice < choiceCount s)) : Effect call s t := by
  refine .cast ⟨voter, choice, amount, voterWeight voter s⟩ ?_ ?_ ?_ (Int.natCast_nonneg amount) ?_
  · rw [ht, hu.result]
  · rw [ht, hu.result]
  · rw [ht, hu.result]
  · rw [hexisting, Counted.Within, Int.natCast_ne_zero]

omit [DecidableEq Hash] in
theorem vote_effect {choice : UInt32} (h : vote ctx voter choice s = .ok t) :
    Effect (.vote voter choice) s t := by
  simp only [vote, bind_eq_ok, rejectIf_eq_ok, okOr_eq_ok, pure_eq_ok] at h
  obtain ⟨_, _, _, _, _, _, _, _, choices, hchoices, _, hchoice, u, hcount, ht⟩ := h
  refine (countVote_ok hcount).effect (by rw [← ht]) ?_
  have hlt : choice.toNat < choiceCount s := by
    rw [choiceCount, hchoices]
    exact Nat.lt_of_not_le hchoice
  exact iff_of_true trivial fun _ => hlt

theorem revealVote_effect {choice : UInt32} {salt : Bytes}
    (h : revealVote host ctx voter choice salt s = .ok t) :
    Effect (.revealVote voter choice salt) s t := by
  simp only [revealVote, bind_eq_ok, trapUnless_eq_ok, pure_eq_ok] at h
  obtain ⟨_, _, _, _, _, _, _, _, _, _, u, hcount, ht⟩ := h
  refine (countVote_ok hcount).effect (by rw [← ht]) ?_
  change (choice.toNat < choiceCount s ∨ voterWeight voter s = 0) ↔ _
  rw [or_iff_not_imp_right]

theorem revealVoteBlinded_effect {commitment : Hash} {secret proof : Bytes} {choice : UInt32}
    (hs : Backed s) (h : revealVoteBlinded host commitment secret choice proof s = .ok t) :
    Effect (.revealVoteBlinded commitment secret choice proof) s t := by
  simp only [revealVoteBlinded, bind_eq_ok, trapUnless_eq_ok, unwrap_eq_ok, pure_eq_ok] at h
  obtain ⟨_, _, _, hhash, _, _, choices, hchoices, _, hchoice, _, _, u, hcount, ht⟩ := h
  obtain ⟨voter, hvoter⟩ := Finmap.mem_iff.mp (hs.known commitment (.inl hhash))
  unfold countBlinded at hcount
  rw [hvoter] at hcount
  refine (countVote_ok hcount).effect (by rw [← ht]) ?_
  have hlt : choice.toNat < choiceCount s := by
    rw [choiceCount, hchoices]
    exact hchoice
  exact iff_of_true trivial fun _ => hlt

theorem exec_effect {i : Invocation Hash} (hs : Backed s) (h : exec host i s = .ok t) :
    Effect i.call s t := by
  cases hcall : i.call with
  | initializeBallot admin votingStart votingEnd choices quorum =>
    simp only [exec, hcall, initializeBallot, bind_eq_ok, rejectIf_eq_ok, pure_eq_ok] at h
    obtain ⟨_, hfresh, _, _, _, _, _, _, _, _, _, _, _, _, rfl⟩ := h
    exact .opened (by simpa using hfresh) (by simp) (by simp) rfl trivial
  | registerVoter voter =>
    simp only [exec, hcall, registerVoter, registerWithWeight, bind_eq_ok, pure_eq_ok] at h
    obtain ⟨_, _, rfl⟩ := h
    exact .kept rfl rfl rfl trivial
  | registerVoterWithWeight voter weight =>
    simp only [exec, hcall, registerVoterWithWeight, registerWithWeight, bind_eq_ok, pure_eq_ok] at h
    obtain ⟨_, _, rfl⟩ := h
    exact .kept rfl rfl rfl trivial
  | deregisterVoter voter =>
    simp only [exec, hcall, deregisterVoter, bind_eq_ok, pure_eq_ok] at h
    obtain ⟨_, _, _, _, _, _, rfl⟩ := h
    exact .kept rfl rfl rfl trivial
  | vote voter choice =>
    simp only [exec, hcall] at h
    exact vote_effect h
  | startCommitPhase =>
    simp only [exec, hcall, startCommitPhase, bind_eq_ok, pure_eq_ok] at h
    obtain ⟨_, _, _, _, rfl⟩ := h
    exact .kept rfl rfl rfl trivial
  | startRevealPhase =>
    simp only [exec, hcall, startRevealPhase, bind_eq_ok, pure_eq_ok] at h
    obtain ⟨_, _, _, _, rfl⟩ := h
    exact .kept rfl rfl rfl trivial
  | commitVote voter commitment =>
    simp only [exec, hcall, commitVote, bind_eq_ok, pure_eq_ok] at h
    obtain ⟨_, _, rfl⟩ := h
    exact .kept rfl rfl rfl trivial
  | commitVoteBlinded voter commitment =>
    simp only [exec, hcall, commitVoteBlinded, bind_eq_ok, pure_eq_ok] at h
    obtain ⟨_, _, _, _, _, _, rfl⟩ := h
    exact .kept rfl rfl rfl trivial
  | revealVote voter choice salt =>
    simp only [exec, hcall] at h
    exact revealVote_effect h
  | revealVoteBlinded commitment secret choice proof =>
    simp only [exec, hcall] at h
    exact revealVoteBlinded_effect hs h

theorem exec_backed {i : Invocation Hash} (hs : Backed s) (h : exec host i s = .ok t) :
    Backed t := by
  rcases exec_ok hs h with ⟨hbacked, _⟩ | ⟨_, hcast⟩
  · exact hbacked
  · exact hcast.backed

end Calls

section Law
variable {Hash : Type} [DecidableEq Hash] {host : Host Hash} {s t : State Hash}

/-- `past` is how the state came about. -/
structure Conserving (past : List (Entry (State Hash) (Invocation Hash))) (s : State Hash) :
    Prop where
  backed : Backed s
  amounts : ∀ b ∈ s.counted, 0 ≤ b.amount
  choices : s.admin ≠ none → s.choices ≠ none
  within : (∀ b ∈ s.counted, b.Within (choiceCount s)) ↔
    ∀ e ∈ past, Existing e.before e.invocation.call

theorem Conserving.step {past : List (Entry (State Hash) (Invocation Hash))} {i : Invocation Hash}
    (hs : Conserving past s) (h : exec host i s = .ok t) :
    Conserving (past ++ [⟨s, i, t⟩]) t := by
  have hbacked := exec_backed hs.backed h
  have hpast : (∀ e ∈ past ++ [⟨s, i, t⟩], Existing e.before e.invocation.call) ↔
      (∀ b ∈ s.counted, b.Within (choiceCount s)) ∧ Existing s i.call := by
    rw [List.forall_mem_append, List.forall_mem_singleton, hs.within]
  cases exec_effect hs.backed h with
  | opened fresh admin choices counted existing =>
    have hnone := (hs.backed.idle fresh).1
    refine ⟨hbacked, ?_, fun _ => choices, ?_⟩
    · rw [counted]
      exact hs.amounts
    · rw [hpast, counted, hnone]
      simp [existing]
  | kept admin choices counted existing =>
    have hcount : choiceCount t = choiceCount s := by rw [choiceCount, choices, choiceCount]
    refine ⟨hbacked, ?_, ?_, ?_⟩
    · rw [counted]
      exact hs.amounts
    · rw [admin, choices]
      exact hs.choices
    · rw [hpast, counted, hcount]
      exact (and_iff_left existing).symm
  | cast b admin choices counted amount existing =>
    have hcount : choiceCount t = choiceCount s := by rw [choiceCount, choices, choiceCount]
    refine ⟨hbacked, ?_, ?_, ?_⟩
    · rw [counted, List.forall_mem_append, List.forall_mem_singleton]
      exact ⟨hs.amounts, amount⟩
    · rw [admin, choices]
      exact hs.choices
    · rw [hpast, counted, hcount, List.forall_mem_append, List.forall_mem_singleton, existing]

theorem conserving_run (is : List (Invocation Hash)) :
    Conserving (history host is) (run host is) := by
  apply history_invariant_along (P := fun _ _ => True) (fun past s i t hs _ h => hs.step h)
  · refine ⟨backed_empty, ?_, ?_, ?_⟩
    · intro b hb
      cases hb
    · intro hadmin
      exact absurd rfl hadmin
    · exact ⟨fun _ _ he => (List.not_mem_nil he).elim, fun _ _ hb => (List.not_mem_nil hb).elim⟩
  · exact along_true (exec host) {} is

/-- The counters agree with what `get_tally` reports exactly if every reveal that counted was for a
    choice that exists. -/
theorem tallies_conserved_iff (is : List (Invocation Hash)) :
    (∀ counts, getTally (run host is) = .ok counts → Conserved (run host is) counts) ↔
      ∀ e ∈ history host is, Existing e.before e.invocation.call := by
  have hrun : Conserving (history host is) (run host is) := conserving_run is
  rw [← hrun.within]
  constructor
  · intro h
    by_cases hadmin : (run host is).admin = none
    · rw [(hrun.backed.idle hadmin).1]
      intro b hb
      cases hb
    · have hok : getTally (run host is) = .ok _ :=
        readCounts_ok.mpr ⟨hadmin, hrun.choices hadmin, rfl⟩
      exact (hrun.backed.tallied.conserved_iff hrun.amounts hok).mp (h _ hok)
  · intro h counts hok
    exact (hrun.backed.tallied.conserved_iff hrun.amounts hok).mpr h

end Law

/-- A commitment to choice `5` of two. -/
def demoPhantom : List (Invocation Bytes) :=
  demoBallot 3 ++ [demoInvoke 20 .startCommitPhase,
    demoInvoke 20 (.commitVote demoVoter [2, 0, 0, 0, 5, 7]),
    demoInvoke 20 .startRevealPhase,
    demoInvoke 20 (.revealVote demoVoter 5 [7])]

/-- Three votes in the total and none in the tallies. -/
theorem phantom_choice_counted :
    ¬ ∀ is : List (Invocation Bytes), ∀ counts, getTally (run demoHost is) = .ok counts →
      Conserved (run demoHost is) counts := by
  intro h
  have hok : getTally (run demoHost demoPhantom) = .ok [0, 0] := by decide +kernel
  exact absurd (h demoPhantom _ hok).total (by decide +kernel)

end SorobanKit.Ballot
