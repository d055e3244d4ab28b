import SorobanKit.BallotMoves

set_option autoImplicit false

/-!
# One voter, one vote

Each of the three ways to vote sets a mark of its own and looks at no mark of the others, and a
reveal not even at its own. A voter is counted as often as it finds a way without a mark.
-/
namespace SorobanKit.Ballot
open HostBalances HostInteger HostInvocation
open HostRuns (Entry history_invariant_along along_true)

section Marks
variable {Hash : Type} [DecidableEq Hash] {s t u : State Hash} {voter : Address} {choice amount : ℕ}

/-- `HasVoted`, `Revealed`, or `RevealedCommitment` for a commitment that the voter made. -/
def Marked (voter : Address) (s : State Hash) : Prop :=
  hasVoted voter s = true ∨ voter ∈ s.revealed ∨
    ∃ c, c ∈ s.revealedCommitment ∧ s.blinder.lookup c = some voter

/-- Marks are on those who were counted, and nothing happens before the ballot is set up. -/
structure Backed (s : State Hash) : Prop where
  tallied : Tallied s
  marks : ∀ voter, voter ∈ s.counted.map Counted.voter ↔ Marked voter s
  known : ∀ c, c ∈ s.commitmentHash ∨ c ∈ s.revealedCommitment → c ∈ s.blinder
  idle : s.admin = none → s.counted = [] ∧ s.revealPhase.getD false = false

theorem backed_empty : Backed ({} : State Hash) where
  tallied := tallied_empty
  marks voter := by simp [Marked, hasVoted, Finmap.notMem_empty]
  known c h := by simp [Finmap.notMem_empty] at h
  idle _ := ⟨rfl, rfl⟩

/-- Registrations, commitments and phases leave tallies and marks alone. -/
theorem Backed.keep {registered : Finmap (fun _ : Address => Bool)}
    {weights : Finmap (fun _ : Address => ℕ)} {commitment : Finmap (fun _ : Address => Hash)}
    {active commitPhase revealPhase : Option Bool} (hs : Backed s)
    (hphase : s.admin = none → revealPhase.getD false = false) :
    Backed { s with
      registeredVoter := registered, voterWeight := weights, commitment := commitment
      votingActive := active, commitPhase := commitPhase, revealPhase := revealPhase } where
  tallied := ⟨hs.tallied.total, hs.tallied.choice, hs.tallied.no, hs.tallied.yes⟩
  marks := hs.marks
  known := hs.known
  idle hnone := ⟨(hs.idle hnone).1, hphase hnone⟩

theorem CountedFor.marked_iff (h : CountedFor voter choice amount s u) (other : Address) :
    Marked other u ↔ Marked other s := by
  rw [h.result]
  exact Iff.rfl

theorem marked_vote (other : Address) :
    Marked other { u with hasVoted := u.hasVoted.insert voter true } ↔
      other = voter ∨ Marked other u := by
  unfold Marked hasVoted
  dsimp only
  rw [lookup_insert_ite]
  by_cases hother : other = voter
  · simp [hother]
  · simp [hother]

theorem marked_reveal {commitment : Finmap (fun _ : Address => Hash)} (other : Address) :
    Marked other { u with commitment := commitment, revealed := u.revealed.insert voter true } ↔
      other = voter ∨ Marked other u := by
  unfold Marked hasVoted
  dsimp only
  rw [Finmap.mem_insert]
  tauto

theorem marked_reveal_blinded {c : Hash} {hashes : Finmap (fun _ : Hash => Bool)}
    (hc : u.blinder.lookup c = some voter) (other : Address) :
    Marked other { u with
      commitmentHash := hashes, revealedCommitment := u.revealedCommitment.insert c true } ↔
      other = voter ∨ Marked other u := by
  unfold Marked
  dsimp only
  have hsplit : (∃ d, d ∈ u.revealedCommitment.insert c true ∧ u.blinder.lookup d = some other) ↔
      other = voter ∨ ∃ d, d ∈ u.revealedCommitment ∧ u.blinder.lookup d = some other := by
    constructor
    · rintro ⟨d, hd, hother⟩
      rcases Finmap.mem_insert.mp hd with rfl | hd
      · exact .inl (Option.some_inj.mp (hother.symm.trans hc))
      · exact .inr ⟨d, hd, hother⟩
    · rintro (rfl | ⟨d, hd, hother⟩)
      · exact ⟨c, Finmap.mem_insert.mpr (.inl rfl), hc⟩
      · exact ⟨d, Finmap.mem_insert.mpr (.inr hd), hother⟩
  rw [hsplit]
  unfold hasVoted
  tauto

/-- A ballot that is counted keeps marks and ballots together if it marks its voter. -/
theorem Backed.count (hs : Backed s) (hu : CountedFor voter choice amount s u)
    (hadmin : s.admin ≠ none)
    (ht : t = { u with
      hasVoted := t.hasVoted, commitment := t.commitment, revealed := t.revealed
      commitmentHash := t.commitmentHash, revealedCommitment := t.revealedCommitment })
    (hmarks : ∀ other, Marked other t ↔ other = voter ∨ Marked other u)
    (hknown : ∀ c, c ∈ t.commitmentHash ∨ c ∈ t.revealedCommitment → c ∈ s.blinder) :
    Backed t ∧ t.counted = s.counted ++ [⟨voter, choice, amount, voterWeight voter s⟩] := by
  have hcounted : t.counted = s.counted ++ [⟨voter, choice, amount, voterWeight voter s⟩] := by
    rw [ht, hu.result]
  have htallied := hu.tallied hs.tallied
  refine ⟨⟨?_, fun other => ?_, fun c hc => ?_, fun hnone => ?_⟩, hcounted⟩
  · rw [ht]
    exact ⟨htallied.total, htallied.choice, htallied.no, htallied.yes⟩
  · rw [hmarks, hu.marked_iff, ← hs.marks, hcounted]
    simp [or_comm]
  · rw [ht, hu.result]
    exact hknown c hc
  · rw [ht, hu.result] at hnone
    exact absurd hnone hadmin

end Marks

section Calls
variable {Hash : Type} [DecidableEq Hash] {host : Host Hash} {ctx : Context} {s t : State Hash}
  {voter : Address} {choice : UInt32} {commitment : Hash} {salt secret proof : Bytes}

/-- The condition on a call: it counts for a voter without any mark, and no more than it weighs. -/
def Careful (s : State Hash) (call : Call Hash) : Prop :=
  match call with
  | .vote voter _ => ¬ Marked voter s
  | .revealVote voter _ _ => ¬ Marked voter s
  | .revealVoteBlinded commitment _ _ _ =>
    ∀ voter ∈ s.blinder.lookup commitment, ¬ Marked voter s ∧ 0 < voterWeight voter s
  | _ => True

/-- The call counted the ballot `b`. -/
structure Cast (call : Call Hash) (b : Counted) (s t : State Hash) : Prop where
  backed : Backed t
  counted : t.counted = s.counted ++ [b]
  careful : Careful s call ↔ ¬ Marked b.voter s ∧ b.amount ≤ b.weight

omit [DecidableEq Hash] in
theorem requireWindow_ok (h : requireWindow ctx s = .ok ()) : s.admin ≠ none := by
  simp only [requireWindow, bind_eq_ok, rejectIf_eq_ok] at h
  obtain ⟨_, hadmin, _⟩ := h
  exact hadmin

theorem Backed.admin_of_reveal (hs : Backed s) (h : s.revealPhase.getD false = true) :
    s.admin ≠ none := by
  intro hnone
  rw [(hs.idle hnone).2] at h
  cases h

theorem vote_ok (hs : Backed s) (h : vote ctx voter choice s = .ok t) :
    ∃ b, Cast (.vote voter choice) b s t := by
  simp only [vote, bind_eq_ok, rejectIf_eq_ok, okOr_eq_ok, pure_eq_ok] at h
  obtain ⟨_, hwindow, _, _, _, _, _, _, choices, _, _, _, u, hcount, ht⟩ := h
  have hu := countVote_ok hcount
  obtain ⟨hbacked, hcounted⟩ := hs.count (t := t) hu (requireWindow_ok hwindow) (by rw [← ht])
    (fun other => by
      rw [← ht]
      exact marked_vote other)
    (fun c hc => by
      rw [← ht, hu.result] at hc
      exact hs.known c hc)
  exact ⟨_, hbacked, hcounted, by simp [Careful]⟩

theorem revealVote_ok (hs : Backed s) (h : revealVote host ctx voter choice salt s = .ok t) :
    ∃ b, Cast (.revealVote voter choice salt) b s t := by
  simp only [revealVote, requireRevealPhase, bind_eq_ok, trapUnless_eq_ok, pure_eq_ok] at h
  obtain ⟨_, _, _, _, _, hphase, _, _, _, _, u, hcount, ht⟩ := h
  have hu := countVote_ok hcount
  obtain ⟨hbacked, hcounted⟩ := hs.count (t := t) hu (hs.admin_of_reveal hphase) (by rw [← ht])
    (fun other => by
      rw [← ht]
      exact marked_reveal other)
    (fun c hc => by
      rw [← ht, hu.result] at hc
      exact hs.known c hc)
  exact ⟨_, hbacked, hcounted, by simp [Careful]⟩

theorem revealVoteBlinded_ok (hs : Backed s)
    (h : revealVoteBlinded host commitment secret choice proof s = .ok t) :
    ∃ b, Cast (.revealVoteBlinded commitment secret choice proof) b s t := by
  simp only [revealVoteBlinded, requireRevealPhase, bind_eq_ok, trapUnless_eq_ok, pure_eq_ok] at h
  obtain ⟨_, hphase, _, hhash, _, _, _, _, _, _, _, _, u, hcount, ht⟩ := h
  obtain ⟨voter, hvoter⟩ := Finmap.mem_iff.mp (hs.known commitment (.inl hhash))
  unfold countBlinded at hcount
  rw [hvoter] at hcount
  have hu := countVote_ok hcount
  have hblinder : u.blinder.lookup commitment = some voter := by
    rw [hu.result]
    exact hvoter
  obtain ⟨hbacked, hcounted⟩ := hs.count (t := t) hu (hs.admin_of_reveal hphase) (by rw [← ht])
    (fun other => by
      rw [← ht]
      exact marked_reveal_blinded hblinder other)
    (fun c hc => by
      rw [← ht, hu.result] at hc
      dsimp only at hc
      rw [Finmap.mem_erase, Finmap.mem_insert] at hc
      rcases hc with ⟨_, hc⟩ | rfl | hc
      · exact hs.known c (.inl hc)
      · exact hs.known c (.inl hhash)
      · exact hs.known c (.inr hc))
  have hone : ((1 : ℕ) : ℤ) ≤ (voterWeight voter s : ℤ) ↔ 0 < voterWeight voter s := by omega
  refine ⟨_, hbacked, hcounted, ?_⟩
  simp only [Careful, hvoter, Option.mem_def, Option.some_inj, forall_eq', hone]

theorem commitVoteBlinded_ok (hs : Backed s) (h : commitVoteBlinded ctx voter commitment s = .ok t) :
    Backed t ∧ t.counted = s.counted := by
  simp only [commitVoteBlinded, bind_eq_ok, pure_eq_ok] at h
  obtain ⟨_, _, _, _, _, _, rfl⟩ := h
  have hkeeps : ∀ c ∈ s.blinder, (noteBlinder voter commitment s).lookup c = s.blinder.lookup c := by
    intro c hc
    unfold noteBlinder
    split
    · rfl
    · next hnew =>
      refine Finmap.lookup_insert_of_ne _ ?_
      rintro rfl
      exact hnew hc
  have hold : ∀ c ∈ s.blinder, c ∈ noteBlinder voter commitment s := by
    intro c hc
    rw [← Finmap.lookup_isSome] at hc ⊢
    rwa [hkeeps c (Finmap.lookup_isSome.mp hc)]
  have hnew : commitment ∈ noteBlinder voter commitment s := by
    unfold noteBlinder
    split
    · next hmem => exact hmem
    · exact Finmap.mem_insert.mpr (.inl rfl)
  refine ⟨⟨⟨hs.tallied.total, hs.tallied.choice, hs.tallied.no, hs.tallied.yes⟩, fun other => ?_,
    fun c hc => ?_, hs.idle⟩, rfl⟩
  · refine (hs.marks other).trans (or_congr Iff.rfl (or_congr Iff.rfl (exists_congr fun c =>
      and_congr_right fun hc => ?_)))
    dsimp only
    rw [hkeeps c (hs.known c (.inr hc))]
  · dsimp only at hc ⊢
    rw [Finmap.mem_insert] at hc
    rcases hc with (rfl | hc) | hc
    · exact hnew
    · exact hold c (hs.known c (.inl hc))
    · exact hold c (hs.known c (.inr hc))

omit [DecidableEq Hash] in
theorem entry_zeros (n : ℕ) (votes : Balances ℕ) (hvotes : ∀ k, entry votes k = 0) (k : ℕ) :
    entry ((List.range n).foldl (fun votes i => votes.insert i 0) votes) k = 0 := by
  induction n with
  | zero => exact hvotes k
  | succ n ih =>
    rw [List.range_succ, List.foldl_append, List.foldl_cons, List.foldl_nil]
    by_cases hk : k = n
    · rw [hk, entry_insert_self]
    · rw [entry_insert_of_ne _ _ hk, ih]

theorem initializeBallot_ok {admin : Address} {votingStart votingEnd quorum : ℕ}
    {choices : List String} (hs : Backed s)
    (h : initializeBallot ctx admin votingStart votingEnd choices quorum s = .ok t) :
    Backed t ∧ t.counted = s.counted := by
  simp only [initializeBallot, bind_eq_ok, rejectIf_eq_ok, pure_eq_ok] at h
  obtain ⟨_, hfresh, _, _, _, _, _, _, _, _, _, _, _, _, rfl⟩ := h
  have hnone : s.admin = none := by simpa using hfresh
  have hcounted := (hs.idle hnone).1
  have htallied := hs.tallied
  refine ⟨⟨⟨?_, fun k => ?_, ?_, ?_⟩, hs.marks, hs.known, fun hsome => ?_⟩, rfl⟩
  · dsimp only
    rw [hcounted]
    rfl
  · dsimp only
    rw [entry_zeros, hcounted]
    · rfl
    · intro k
      rw [htallied.choice, hcounted]
      rfl
  · dsimp only
    rw [hcounted]
    rfl
  · dsimp only
    rw [hcounted]
    rfl
  · cases hsome

/-- A call that returned either counted one ballot or none. -/
theorem exec_ok {i : Invocation Hash} (hs : Backed s) (h : exec host i s = .ok t) :
    (Backed t ∧ t.counted = s.counted ∧ Careful s i.call) ∨ ∃ b, Cast i.call b s t := by
  cases hcall : i.call with
  | initializeBallot admin votingStart votingEnd choices quorum =>
    simp only [exec, hcall] at h
    obtain ⟨hbacked, hcounted⟩ := initializeBallot_ok hs h
    exact .inl ⟨hbacked, hcounted, trivial⟩
  | registerVoter voter =>
    simp only [exec, hcall, registerVoter, registerWithWeight, bind_eq_ok, pure_eq_ok] at h
    obtain ⟨_, _, rfl⟩ := h
    exact .inl ⟨hs.keep fun hnone => (hs.idle hnone).2, rfl, trivial⟩
  | registerVoterWithWeight voter weight =>
    simp only [exec, hcall, registerVoterWithWeight, registerWithWeight, bind_eq_ok, pure_eq_ok] at h
    obtain ⟨_, _, rfl⟩ := h
    exact .inl ⟨hs.keep fun hnone => (hs.idle hnone).2, rfl, trivial⟩
  | deregisterVoter voter =>
    simp only [exec, hcall, deregisterVoter, bind_eq_ok, pure_eq_ok] at h
    obtain ⟨_, _, _, _, _, _, rfl⟩ := h
    exact .inl ⟨hs.keep fun hnone => (hs.idle hnone).2, rfl, trivial⟩
  | vote voter choice =>
    simp only [exec, hcall] at h
    exact .inr (vote_ok hs h)
  | startCommitPhase =>
    simp only [exec, hcall, startCommitPhase, bind_eq_ok, pure_eq_ok] at h
    obtain ⟨_, _, _, _, rfl⟩ := h
    exact .inl ⟨hs.keep fun _ => rfl, rfl, trivial⟩
  | startRevealPhase =>
    simp only [exec, hcall, startRevealPhase, bind_eq_ok, unwrap_eq_ok, pure_eq_ok] at h
    obtain ⟨admin, hadmin, _, _, rfl⟩ := h
    exact .inl ⟨hs.keep fun hnone => by simp [hnone] at hadmin, rfl, trivial⟩
  | commitVote voter commitment =>
    simp only [exec, hcall, commitVote, bind_eq_ok, pure_eq_ok] at h
    obtain ⟨_, _, rfl⟩ := h
    exact .inl ⟨hs.keep fun hnone => (hs.idle hnone).2, rfl, trivial⟩
  | commitVoteBlinded voter commitment =>
    simp only [exec, hcall] at h
    obtain ⟨hbacked, hcounted⟩ := commitVoteBlinded_ok hs h
    exact .inl ⟨hbacked, hcounted, trivial⟩
  | revealVote voter choice salt =>
    simp only [exec, hcall] at h
    exact .inr (revealVote_ok hs h)
  | revealVoteBlinded commitment secret choice proof =>
    simp only [exec, hcall] at h
    exact .inr (revealVoteBlinded_ok hs h)

end Calls

section Law
variable {Hash : Type} [DecidableEq Hash] {s t : State Hash} {call : Call Hash} {b : Counted}

/-- Every voter is counted once at most, and with its weight at most. -/
structure OneVote (ballots : List Counted) : Prop where
  once : (ballots.map Counted.voter).Nodup
  weighed : ∀ b ∈ ballots, b.amount ≤ b.weight

theorem oneVote_nil : OneVote [] where
  once := List.nodup_nil
  weighed _ h := by cases h

theorem oneVote_concat {ballots : List Counted} : OneVote (ballots ++ [b]) ↔
    OneVote ballots ∧ b.voter ∉ ballots.map Counted.voter ∧ b.amount ≤ b.weight := by
  constructor
  · rintro ⟨honce, hweighed⟩
    rw [List.map_append, List.map_cons, List.map_nil, ← List.concat_eq_append,
      List.nodup_concat] at honce
    exact ⟨⟨honce.2, fun b hb => hweighed b (List.mem_append_left _ hb)⟩, honce.1,
      hweighed b (List.mem_append_right _ List.mem_cons_self)⟩
  · rintro ⟨⟨honce, hweighed⟩, hnew, hamount⟩
    refine ⟨?_, fun c hc => ?_⟩
    · rw [List.map_append, List.map_cons, List.map_nil, ← List.concat_eq_append, List.nodup_concat]
      exact ⟨hnew, honce⟩
    · rcases List.mem_append.mp hc with hc | hc
      · exact hweighed c hc
      · rw [List.mem_singleton.mp hc]
        exact hamount

theorem Cast.oneVote_iff (h : Cast call b s t) (hs : Backed s) :
    OneVote t.counted ↔ OneVote s.counted ∧ Careful s call := by
  rw [h.counted, oneVote_concat, h.careful, hs.marks]

variable {host : Host Hash}

/-- The tallies are the sums of the ballots counted, and every voter has one ballot among them
    exactly if every call that returned was careful. -/
theorem one_vote_iff (is : List (Invocation Hash)) :
    Tallied (run host is) ∧
    (OneVote (run host is).counted ↔
      ∀ e ∈ history host is, Careful e.before e.invocation.call) := by
  let I : List (Entry (State Hash) (Invocation Hash)) → State Hash → Prop := fun past s =>
    Backed s ∧ (OneVote s.counted ↔ ∀ e ∈ past, Careful e.before e.invocation.call)
  have hstep : ∀ past s i t, I past s → True → exec host i s = .ok t → I (past ++ [⟨s, i, t⟩]) t := by
    rintro past s i t ⟨hs, hlaw⟩ - hexec
    have hpast : (∀ e ∈ past ++ [⟨s, i, t⟩], Careful e.before e.invocation.call) ↔
        OneVote s.counted ∧ Careful s i.call := by
      rw [List.forall_mem_append, List.forall_mem_singleton, hlaw]
    rcases exec_ok hs hexec with ⟨hbacked, hcounted, hcareful⟩ | ⟨b, hcast⟩
    · refine ⟨hbacked, ?_⟩
      rw [hpast, hcounted]
      exact (and_iff_left hcareful).symm
    · refine ⟨hcast.backed, ?_⟩
      rw [hpast]
      exact hcast.oneVote_iff hs
  have hstart : I [] {} := ⟨backed_empty, fun _ _ he => (List.not_mem_nil he).elim, fun _ => oneVote_nil⟩
  have hrun := history_invariant_along (I := I) (P := fun _ _ => True) hstep hstart
    (along_true (exec host) {} is)
  exact ⟨hrun.1.tallied, hrun.2⟩

end Law

def demoAdmin : Address := ⟨1⟩
def demoVoter : Address := ⟨2⟩

/-- A hash without collisions. -/
def demoHost : Host Bytes where
  sha256 := id
  addressBytes a := [UInt8.ofNat a.id]

def demoInvoke (sequence : ℕ) (call : Call Bytes) : Invocation Bytes where
  sequence := sequence
  auths := [demoAdmin, demoVoter]
  call := call

/-- One voter of the given weight. -/
def demoBallot (weight : ℕ) : List (Invocation Bytes) :=
  [demoInvoke 1 (.initializeBallot demoAdmin 20 40 ["no", "yes"] 0),
    demoInvoke 2 (.registerVoterWithWeight demoVoter weight)]

/-- A commitment to "yes", with the salt `7`, and its reveal. -/
def demoRound (sequence : ℕ) : List (Invocation Bytes) :=
  [demoInvoke sequence .startCommitPhase,
    demoInvoke sequence (.commitVote demoVoter [2, 0, 0, 0, 1, 7]),
    demoInvoke sequence .startRevealPhase,
    demoInvoke sequence (.revealVote demoVoter 1 [7])]

/-- A vote next to a revealed commitment, two rounds of commitments, and a blinded ballot without
    weight. -/
theorem counted_more_than_once :
    ¬ OneVote (run demoHost
      (demoBallot 3 ++ demoRound 20 ++ [demoInvoke 21 (.vote demoVoter 1)])).counted ∧
    ¬ OneVote (run demoHost (demoBallot 3 ++ demoRound 20 ++ demoRound 21)).counted ∧
    ¬ OneVote (run demoHost (demoBallot 0 ++ [demoInvoke 20 .startCommitPhase,
      demoInvoke 20 (.commitVoteBlinded demoVoter [9, 0, 0, 0, 1, 9]),
      demoInvoke 21 .startRevealPhase,
      demoInvoke 21 (.revealVoteBlinded [9, 0, 0, 0, 1, 9] [9] 1 [9])])).counted := by
  refine ⟨fun h => absurd h.once (by decide +kernel), fun h => absurd h.once (by decide +kernel),
    fun h => absurd h.weighed (by decide +kernel)⟩

end SorobanKit.Ballot
