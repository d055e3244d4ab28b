import SorobanKit.BallotCertification

set_option autoImplicit false

/-!
# Certified results

A certificate is given once, after the end of the window, for a leading choice. It stays true as
long as no ballot is counted after it, which the flags of reveals and ranked ballots do not rule out.
-/
namespace SorobanKit.Ballot
open HostBalances HostInteger HostInvocation
open HostRuns (Entry Along along_clock history_split)

theorem highest_cases {counts : List ℤ} {start top : ℤ}
    (h : counts.foldl (fun max count => if max < count then count else max) start = top) :
    start ≤ top ∧ (∀ c ∈ counts, c ≤ top) ∧ (top = start ∨ top ∈ counts) := by
  induction counts generalizing start with
  | nil =>
    subst h
    exact ⟨le_refl _, fun _ hc => (List.not_mem_nil hc).elim, .inl rfl⟩
  | cons c counts ih =>
    obtain ⟨hstart, hall, htop⟩ := ih h
    rw [List.forall_mem_cons, List.mem_cons]
    dsimp only at hstart htop
    split_ifs at hstart htop with hlt
    · exact ⟨by omega, ⟨hstart, hall⟩, .inr htop⟩
    · exact ⟨hstart, ⟨by omega, hall⟩, htop.imp id .inr⟩

section Leaders
variable {Hash : Type} {s t : State Hash}

/-- The choice has votes, and none has more. -/
structure Leads (s : State Hash) (choice : ℕ) : Prop where
  configured : choice < choiceCount s
  positive : 0 < entry s.choiceVotes choice
  most : ∀ other < choiceCount s, entry s.choiceVotes other ≤ entry s.choiceVotes choice

theorem ballotTallyCounts_ok {counts : List ℤ} (h : ballotTallyCounts s = .ok counts) :
    s.choices ≠ none ∧ counts = (List.range (choiceCount s)).map (entry s.choiceVotes) := by
  simp only [ballotTallyCounts, bind_eq_ok, okOr_eq_ok, pure_eq_ok] at h
  obtain ⟨choices, hchoices, rfl⟩ := h
  rw [choiceCount, hchoices]
  exact ⟨by simp, rfl⟩

theorem mem_tiedAmong {choice : ℕ} :
    choice ∈ tiedAmong ((List.range (choiceCount s)).map (entry s.choiceVotes)) ↔
      Leads s choice := by
  rw [tiedAmong]
  generalize hhighest : highest ((List.range (choiceCount s)).map (entry s.choiceVotes)) = top
  obtain ⟨_, hall, htop⟩ := highest_cases hhighest
  have hle : ∀ other < choiceCount s, entry s.choiceVotes other ≤ top := fun other hother =>
    hall _ (List.mem_map.mpr ⟨other, List.mem_range.mpr hother, rfl⟩)
  have hget : ∀ i < choiceCount s,
      ((List.range (choiceCount s)).map (entry s.choiceVotes))[i]?.getD 0 =
        entry s.choiceVotes i := by
    intro i hi
    rw [List.getElem?_map, List.getElem?_range hi]
    rfl
  split
  · next hpos =>
    rw [List.mem_filter, List.mem_range, List.length_map, List.length_range, decide_eq_true_eq]
    constructor
    · rintro ⟨hlt, heq⟩
      rw [hget choice hlt] at heq
      exact ⟨hlt, by omega, fun other hother => by have hother := hle other hother; omega⟩
    · intro h
      refine ⟨h.configured, ?_⟩
      rw [hget choice h.configured]
      -- the highest tally is the tally of some choice, which has no more than the leading one
      rcases htop with rfl | hmem
      · omega
      · obtain ⟨other, hother, rfl⟩ := List.mem_map.mp hmem
        have hmost := h.most other (List.mem_range.mp hother)
        have hchoice := hle choice h.configured
        omega
  · next hpos =>
    constructor
    · intro h
      cases h
    · intro h
      have hchoice := hle choice h.configured
      have hpositive := h.positive
      omega

/-- No other choice has as many votes. -/
def Sole (s : State Hash) (choice : ℕ) : Prop :=
  ∀ other < choiceCount s, other ≠ choice → entry s.choiceVotes other < entry s.choiceVotes choice

theorem Leads.sole {choice : ℕ} (h : Leads s choice) (hall : ∀ other, Leads s other → other = choice) :
    Sole s choice := by
  intro other hother hne
  have hle := h.most other hother
  by_contra hnot
  refine hne (hall other ⟨hother, ?_, fun third hthird => ?_⟩)
  · have hpositive := h.positive
    omega
  · have hmost := h.most third hthird
    omega

end Leaders

section Certificates
variable {Hash : Type} [DecidableEq Hash] {host : Host Hash} {commitHash : Bytes → Hash}
  {ctx : Context} {s t : FullState Hash}

/-- The winner leads, alone unless the admin was to decide and decided. -/
structure Wins (s : FullState Hash) (winner : ℕ) : Prop where
  leads : Leads s.toState winner
  sole : Sole s.toState winner ∨
    (s.tieBreaker = some .adminDecidingVote ∧ s.tieResolution = some winner)

omit [DecidableEq Hash] in
theorem decideWinner_ok {tied : List ℕ} {winner : ℕ}
    (htied : ∀ choice, choice ∈ tied ↔ Leads s.toState choice)
    (h : decideWinner tied s = .ok winner) : Wins s winner := by
  unfold decideWinner at h
  split at h
  · cases h
  · next first =>
    cases h
    have hleads := (htied winner).mp List.mem_cons_self
    refine ⟨hleads, .inl (hleads.sole fun other hother => ?_)⟩
    exact List.mem_singleton.mp ((htied other).mpr hother)
  · split at h
    · next hpolicy hresolved =>
      split at h
      · next hmem =>
        cases h
        refine ⟨(htied winner).mp hmem, .inr ⟨?_, hresolved⟩⟩
        cases hbreaker : s.tieBreaker with
        | none => simp [hbreaker] at hpolicy
        | some policy =>
          rw [hbreaker] at hpolicy
          exact congrArg some hpolicy
      · cases h
    · cases h

/-- What `certify_results` finds, and what it stores. -/
structure Certifies (commitHash : Bytes → Hash) (ctx : Context) (s t : FullState Hash) : Prop where
  fresh : s.certifiedHash = none
  admin : s.admin ≠ none
  choices : s.choices ≠ none
  closed : s.votingEnd.getD 0 < ctx.sequence
  quorum : (s.quorum.getD 0 : ℤ) ≤ s.totalVotes.getD 0
  winner : ∃ winner, Wins s winner ∧ t = { s with
    certifiedHash := some (ballotResultHash commitHash winner
      ((List.range (choiceCount s.toState)).map (entry s.choiceVotes)))
    certifiedWinner := some winner, certifiedAt := some ctx.sequence }

omit [DecidableEq Hash] in
theorem certifyResults_ok {hash : Hash} (h : certifyResults commitHash ctx s = .ok (hash, t)) :
    Certifies commitHash ctx s t := by
  simp only [certifyResults, ballotRequireClosed, ballotTiedChoices, bind_eq_ok, rejectIf_eq_ok,
    pure_eq_ok] at h
  obtain ⟨_, hfresh, _, ⟨_, hadmin, hclosed⟩, counts, hcounts, _, hquorum, tied,
    ⟨counts', hcounts', htied⟩, winner, hwinner, hresult⟩ := h
  obtain ⟨hchoices, rfl⟩ := ballotTallyCounts_ok hcounts
  obtain ⟨_, rfl⟩ := ballotTallyCounts_ok hcounts'
  subst htied
  obtain ⟨_, rfl⟩ := Prod.mk.inj hresult
  refine ⟨by simpa using hfresh, hadmin, hchoices, by omega, by omega, winner, ?_, rfl⟩
  exact decideWinner_ok (fun choice => mem_tiedAmong) hwinner

end Certificates

section Additions
variable {Hash : Type} [DecidableEq Hash] {host : Host Hash} {commitHash : Bytes → Hash}
  {ctx : Context} {s t u : State Hash}

/-- The terms of the ballot stay, and `amount` is added to the tallies. -/
structure Added (amount : ℕ) (s t : State Hash) : Prop where
  admin : t.admin = s.admin
  choices : t.choices = s.choices
  votingEnd : t.votingEnd = s.votingEnd
  total : t.totalVotes.getD 0 = s.totalVotes.getD 0 + amount
  votes : amount = 0 → ∀ choice, entry t.choiceVotes choice = entry s.choiceVotes choice

omit [DecidableEq Hash] in
theorem Added.refl (s : State Hash) : Added 0 s s where
  admin := rfl
  choices := rfl
  votingEnd := rfl
  total := by simp
  votes _ _ := rfl

theorem entry_credit_zero (votes : Balances ℕ) {amount : ℕ} (choice : ℕ) (h : amount = 0) (k : ℕ) :
    entry (credit votes choice amount) k = entry votes k := by
  rw [entry_credit, h]
  simp

omit [DecidableEq Hash] in
theorem Recorded.added {choice amount : ℕ} (h : Recorded choice amount s t) : Added amount s t := by
  rw [h.result]
  exact ⟨rfl, rfl, rfl, rfl, fun hzero => entry_credit_zero s.choiceVotes choice hzero⟩

omit [DecidableEq Hash] in
theorem CountedFor.added {voter : Address} {choice amount : ℕ}
    (h : CountedFor voter choice amount s t) : Added amount s t := by
  rw [h.result]
  exact ⟨rfl, rfl, rfl, rfl, fun hzero => entry_credit_zero s.choiceVotes choice hzero⟩

/-- What a call of this kind adds to the total. -/
def ballots (s : State Hash) (call : Call Hash) : ℕ :=
  match call with
  | .vote voter _ => voterWeight voter s
  | .revealVote voter _ _ => voterWeight voter s
  | .revealVoteBlinded _ _ _ _ => 1
  | _ => 0

omit [DecidableEq Hash] in
theorem vote_added {voter : Address} {choice : UInt32} (h : vote ctx voter choice s = .ok t) :
    Added (voterWeight voter s) s t ∧ ctx.sequence ≤ s.votingEnd.getD 0 := by
  simp only [vote, requireWindow, bind_eq_ok, rejectIf_eq_ok, pure_eq_ok] at h
  obtain ⟨_, ⟨_, _, _, _, _, _, hend⟩, _, _, _, _, _, _, _, _, _, _, u, hcount, rfl⟩ := h
  have hu := (countVote_ok hcount).added
  exact ⟨⟨hu.admin, hu.choices, hu.votingEnd, hu.total, hu.votes⟩, by omega⟩

theorem revealVote_added {voter : Address} {choice : UInt32} {salt : Bytes}
    (h : revealVote host ctx voter choice salt s = .ok t) : Added (voterWeight voter s) s t := by
  simp only [revealVote, bind_eq_ok, pure_eq_ok] at h
  obtain ⟨_, _, _, _, _, _, _, _, _, _, u, hcount, rfl⟩ := h
  have hu := (countVote_ok hcount).added
  exact ⟨hu.admin, hu.choices, hu.votingEnd, hu.total, hu.votes⟩

theorem countBlinded_added {commitment : Hash} {choice : ℕ}
    (h : countBlinded commitment choice s = .ok t) : Added 1 s t := by
  unfold countBlinded at h
  split at h
  · exact (countVote_ok h).added
  · exact (recordVote_ok h).added

theorem revealVoteBlinded_added {commitment : Hash} {secret proof : Bytes} {choice : UInt32}
    (h : revealVoteBlinded host commitment secret choice proof s = .ok t) : Added 1 s t := by
  simp only [revealVoteBlinded, bind_eq_ok, pure_eq_ok] at h
  obtain ⟨_, _, _, _, _, _, _, _, _, _, _, _, u, hcount, rfl⟩ := h
  have hu := countBlinded_added hcount
  exact ⟨hu.admin, hu.choices, hu.votingEnd, hu.total, hu.votes⟩

theorem exec_added {i : Invocation Hash} (hadmin : s.admin ≠ none) (h : exec host i s = .ok t) :
    Added (ballots s i.call) s t := by
  have hkept := Added.refl s
  cases hcall : i.call with
  | initializeBallot admin votingStart votingEnd choices quorum =>
    simp only [exec, hcall, initializeBallot, bind_eq_ok, rejectIf_eq_ok] at h
    obtain ⟨_, hfresh, _⟩ := h
    exact absurd (by simpa using hfresh) hadmin
  | registerVoter voter =>
    simp only [exec, hcall, registerVoter, registerWithWeight, bind_eq_ok, pure_eq_ok] at h
    obtain ⟨_, _, rfl⟩ := h
    exact ⟨rfl, rfl, rfl, hkept.total, hkept.votes⟩
  | registerVoterWithWeight voter weight =>
    simp only [exec, hcall, registerVoterWithWeight, registerWithWeight, bind_eq_ok, pure_eq_ok] at h
    obtain ⟨_, _, rfl⟩ := h
    exact ⟨rfl, rfl, rfl, hkept.total, hkept.votes⟩
  | deregisterVoter voter =>
    simp only [exec, hcall, deregisterVoter, bind_eq_ok, pure_eq_ok] at h
    obtain ⟨_, _, _, _, _, _, rfl⟩ := h
    exact ⟨rfl, rfl, rfl, hkept.total, hkept.votes⟩
  | vote voter choice =>
    simp only [exec, hcall] at h
    exact (vote_added h).1
  | startCommitPhase =>
    simp only [exec, hcall, startCommitPhase, bind_eq_ok, pure_eq_ok] at h
    obtain ⟨_, _, _, _, rfl⟩ := h
    exact ⟨rfl, rfl, rfl, hkept.total, hkept.votes⟩
  | startRevealPhase =>
    simp only [exec, hcall, startRevealPhase, bind_eq_ok, pure_eq_ok] at h
    obtain ⟨_, _, _, _, rfl⟩ := h
    exact ⟨rfl, rfl, rfl, hkept.total, hkept.votes⟩
  | commitVote voter commitment =>
    simp only [exec, hcall, commitVote, bind_eq_ok, pure_eq_ok] at h
    obtain ⟨_, _, rfl⟩ := h
    exact ⟨rfl, rfl, rfl, hkept.total, hkept.votes⟩
  | commitVoteBlinded voter commitment =>
    simp only [exec, hcall, commitVoteBlinded, bind_eq_ok, pure_eq_ok] at h
    obtain ⟨_, _, _, _, _, _, rfl⟩ := h
    exact ⟨rfl, rfl, rfl, hkept.total, hkept.votes⟩
  | revealVote voter choice salt =>
    simp only [exec, hcall] at h
    exact revealVote_added h
  | revealVoteBlinded commitment secret choice proof =>
    simp only [exec, hcall] at h
    exact revealVoteBlinded_added h

end Additions

section Calls
variable {Hash : Type} [DecidableEq Hash] {host : Host Hash} {commitHash : Bytes → Hash}
  {i : FullInvocation Hash} {s t : FullState Hash}

/-- What a call of this kind adds to the total after the end of the window, where `vote` is
    refused. -/
def lateBallots (s : FullState Hash) (call : FullCall Hash) : ℕ :=
  match call with
  | .ballot (.vote _ _) => 0
  | .ballot call => ballots s.toState call
  | .voteRanked voter _ => voterWeight voter s.toState
  | _ => 0

/-- The certificate, with the tie resolution it may rest on. -/
structure SameCertificate (s t : FullState Hash) : Prop where
  resolution : t.tieResolution = s.tieResolution
  hash : t.certifiedHash = s.certifiedHash
  winner : t.certifiedWinner = s.certifiedWinner
  certifiedAt : t.certifiedAt = s.certifiedAt

/-- What a returning call does to tallies and certificate. -/
inductive Outcome (commitHash : Bytes → Hash) (i : FullInvocation Hash) (s t : FullState Hash) :
    Prop where
  | counted (certificate : SameCertificate s t)
      (added : s.admin ≠ none → ∃ amount, Added amount s.toState t.toState ∧
        (s.votingEnd.getD 0 < i.sequence → amount = lateBallots s i.call))
      (call : i.call ≠ .certifyResults)
  | resolved (choice : UInt32) (call : i.call = .resolveTie choice)
      (admin : ∃ admin, s.admin = some admin ∧ admin ∈ i.auths)
      (result : t = { s with tieResolution := some choice.toNat })
  | certified (call : i.call = .certifyResults) (result : Certifies commitHash i.toContext s t)

omit [DecidableEq Hash] in
theorem requireAdmin_ok {ctx : Context} {s : State Hash} (h : requireAdmin ctx s = .ok ()) :
    ∃ admin, s.admin = some admin ∧ admin ∈ ctx.auths := by
  simpa only [requireAdmin, bind_eq_ok, okOr_eq_ok, requireAuth_eq_ok] using h

omit [DecidableEq Hash] in
/-- Nothing is counted and the certificate is left alone. -/
theorem Outcome.quiet (certificate : SameCertificate s t) (added : Added 0 s.toState t.toState)
    (hlate : lateBallots s i.call = 0) (hcall : i.call ≠ .certifyResults) :
    Outcome commitHash i s t :=
  .counted certificate (fun _ => ⟨0, added, fun _ => hlate.symm⟩) hcall

theorem ballot_outcome {call : Call Hash} {t : State Hash} (hcall : i.call = .ballot call)
    (h : exec host ⟨i.toContext, call⟩ s.toState = .ok t) :
    Outcome commitHash i s { s with toState := t } := by
  refine .counted ⟨rfl, rfl, rfl, rfl⟩ (fun hadmin => ⟨_, exec_added hadmin h, fun hlate => ?_⟩) ?_
  · rw [hcall]
    cases call with
    | vote voter choice =>
      have hopen := (vote_added h).2
      dsimp only at hopen
      omega
    | _ => rfl
  · rw [hcall]
    simp

omit [DecidableEq Hash] in
theorem voteRanked_added {ctx : Context} {voter : Address} {preferences : List UInt32}
    (h : voteRanked ctx voter preferences s = .ok t) :
    Added (voterWeight voter s.toState) s.toState t.toState ∧ SameCertificate s t := by
  simp only [voteRanked, bind_eq_ok, addVotes_eq_ok, pure_eq_ok] at h
  obtain ⟨_, _, _, _, _, _, _, _, _, _, _, _, _, _, _, _, _, ⟨_, rfl⟩, rfl⟩ := h
  exact ⟨⟨rfl, rfl, rfl, rfl, fun _ _ => rfl⟩, rfl, rfl, rfl, rfl⟩

theorem execFull_outcome (h : execFull host commitHash i s = .ok t) :
    Outcome commitHash i s t := by
  have hkept := Added.refl s.toState
  cases hcall : i.call with
  | ballot call =>
    simp only [execFull, hcall, bind_eq_ok, pure_eq_ok] at h
    obtain ⟨u, hexec, rfl⟩ := h
    exact ballot_outcome hcall hexec
  | unregisterVoter voter =>
    simp only [execFull, hcall, unregisterVoter, bind_eq_ok, pure_eq_ok] at h
    obtain ⟨_, _, rfl⟩ := h
    exact .quiet ⟨rfl, rfl, rfl, rfl⟩ ⟨rfl, rfl, rfl, hkept.total, hkept.votes⟩ (by rw [hcall]; rfl)
      (by simp [hcall])
  | voteRanked voter preferences =>
    simp only [execFull, hcall] at h
    obtain ⟨hadded, hsame⟩ := voteRanked_added h
    exact .counted hsame (fun _ => ⟨_, hadded, fun _ => by rw [hcall]; rfl⟩) (by simp [hcall])
  | tallyAll =>
    simp only [execFull, hcall, tallyAll, bind_eq_ok, ite_eq_ok, pure_eq_ok] at h
    obtain ⟨⟨_, u⟩, ⟨_, _, _, _, hresult⟩, rfl⟩ := h
    have hu : u = { s with votingActive := some false } := by
      rcases hresult with ⟨_, hpair⟩ | ⟨_, hpair⟩
      · exact (Prod.mk.inj hpair).2.symm
      · exact (Prod.mk.inj hpair).2.symm
    subst hu
    exact .quiet ⟨rfl, rfl, rfl, rfl⟩ ⟨rfl, rfl, rfl, hkept.total, hkept.votes⟩ (by rw [hcall]; rfl)
      (by simp [hcall])
  | tally =>
    simp only [execFull, hcall, tally, bind_eq_ok, pure_eq_ok] at h
    obtain ⟨⟨_, u⟩, ⟨_, _, hpair⟩, rfl⟩ := h
    obtain ⟨_, rfl⟩ := Prod.mk.inj hpair
    exact .quiet ⟨rfl, rfl, rfl, rfl⟩ ⟨rfl, rfl, rfl, hkept.total, hkept.votes⟩ (by rw [hcall]; rfl)
      (by simp [hcall])
  | setTieBreaker tieBreaker =>
    simp only [execFull, hcall, setTieBreaker, bind_eq_ok, pure_eq_ok] at h
    obtain ⟨_, _, rfl⟩ := h
    exact .quiet ⟨rfl, rfl, rfl, rfl⟩ ⟨rfl, rfl, rfl, hkept.total, hkept.votes⟩ (by rw [hcall]; rfl)
      (by simp [hcall])
  | resolveTie choice =>
    simp only [execFull, hcall, resolveTie, bind_eq_ok, pure_eq_ok] at h
    obtain ⟨_, hadmin, _, _, _, _, _, _, rfl⟩ := h
    exact .resolved choice hcall (requireAdmin_ok hadmin) rfl
  | certifyResults =>
    simp only [execFull, hcall, bind_eq_ok, pure_eq_ok] at h
    obtain ⟨⟨_, u⟩, hcertify, rfl⟩ := h
    exact .certified hcall (certifyResults_ok hcertify)

end Calls

section Law
variable {Hash : Type} [DecidableEq Hash] {host : Host Hash} {commitHash : Bytes → Hash}
  {i : FullInvocation Hash} {s t : FullState Hash}

/-- Tallies, total and certificate are as they were. -/
structure SameResult (s t : FullState Hash) : Prop where
  total : t.totalVotes.getD 0 = s.totalVotes.getD 0
  votes : ∀ choice, entry t.choiceVotes choice = entry s.choiceVotes choice
  winner : t.certifiedWinner = s.certifiedWinner
  hash : t.certifiedHash = s.certifiedHash

/-- The stored hash is the one of the winner and of what `get_tally` reports. -/
def Matches (commitHash : Bytes → Hash) (s : FullState Hash) : Prop :=
  ∀ hash, s.certifiedHash = some hash → ∃ winner counts, s.certifiedWinner = some winner ∧
    getTally s.toState = .ok counts ∧ hash = ballotResultHash commitHash winner counts

/-- The admin chose `winner` in one of the calls. -/
def ChosenByAdmin (winner : ℕ) (past : List (Entry (FullState Hash) (FullInvocation Hash))) : Prop :=
  ∃ e ∈ past, ∃ choice admin, e.invocation.call = .resolveTie choice ∧ choice.toNat = winner ∧
    e.before.admin = some admin ∧ admin ∈ e.invocation.auths

/-- What `certify_results` certifies after `past`. -/
structure CertifiedAfter (past : List (Entry (FullState Hash) (FullInvocation Hash)))
    (e : Entry (FullState Hash) (FullInvocation Hash)) : Prop where
  closed : e.before.votingEnd.getD 0 < e.invocation.sequence
  quorum : (e.before.quorum.getD 0 : ℤ) ≤ e.before.totalVotes.getD 0
  winner : ∃ winner, e.after.certifiedWinner = some winner ∧ Leads e.before.toState winner ∧
    (Sole e.before.toState winner ∨
      (e.before.tieBreaker = some .adminDecidingVote ∧ ChosenByAdmin winner past))

/-- Certificates are given once at most and for good reason, and stay true. -/
structure Certified (commitHash : Bytes → Hash)
    (all : List (Entry (FullState Hash) (FullInvocation Hash))) : Prop where
  once : ∀ past e later, all = past ++ e :: later → e.invocation.call = .certifyResults →
    ∀ f ∈ later, f.invocation.call ≠ .certifyResults
  justified : ∀ past e later, all = past ++ e :: later → e.invocation.call = .certifyResults →
    CertifiedAfter past e
  final : ∀ e ∈ all, e.before.certifiedHash ≠ none → SameResult e.before e.after
  matching : ∀ e ∈ all, Matches commitHash e.after

/-- The condition: once there is a certificate, no ballot that weighs something is counted. -/
def NoLateBallots (all : List (Entry (FullState Hash) (FullInvocation Hash))) : Prop :=
  ∀ e ∈ all, e.before.certifiedHash ≠ none → lateBallots e.before e.invocation.call = 0

/-- `past` is how the state came about. -/
structure Certifying (commitHash : Bytes → Hash)
    (past : List (Entry (FullState Hash) (FullInvocation Hash))) (s : FullState Hash) : Prop where
  terms : s.certifiedHash ≠ none →
    s.admin ≠ none ∧ s.choices ≠ none ∧ s.votingEnd.getD 0 < s.certifiedAt.getD 0
  resolution : ∀ winner, s.tieResolution = some winner → ChosenByAdmin winner past
  noted : (∃ e ∈ past, e.invocation.call = .certifyResults) → s.certifiedHash ≠ none
  matching : NoLateBallots past → Matches commitHash s

omit [DecidableEq Hash] in
theorem certifying_start : Certifying commitHash [] ({} : FullState Hash) where
  terms h := absurd rfl h
  resolution _ h := by cases h
  noted := by
    rintro ⟨e, he, _⟩
    cases he
  matching _ _ h := by cases h

omit [DecidableEq Hash] in
theorem ChosenByAdmin.mono {winner : ℕ} {past : List (Entry (FullState Hash) (FullInvocation Hash))}
    (h : ChosenByAdmin winner past) (e : Entry (FullState Hash) (FullInvocation Hash)) :
    ChosenByAdmin winner (past ++ [e]) := by
  obtain ⟨f, hf, hchosen⟩ := h
  exact ⟨f, List.mem_append_left _ hf, hchosen⟩

omit [DecidableEq Hash] in
theorem Added.sameResult_iff {amount : ℕ} (h : Added amount s.toState t.toState)
    (hsame : SameCertificate s t) : SameResult s t ↔ amount = 0 := by
  constructor
  · intro hresult
    have htotal := h.total
    have hequal := hresult.total
    omega
  · intro hzero
    refine ⟨?_, h.votes hzero, hsame.winner, hsame.hash⟩
    rw [h.total, hzero]
    simp

omit [DecidableEq Hash] in
theorem SameResult.matches (h : SameResult s t) (hadmin : t.admin = s.admin)
    (hchoices : t.choices = s.choices) (hs : Matches commitHash s) : Matches commitHash t := by
  intro hash hhash
  rw [h.hash] at hhash
  obtain ⟨winner, counts, hwinner, htally, heq⟩ := hs hash hhash
  refine ⟨winner, counts, h.winner.trans hwinner, ?_, heq⟩
  obtain ⟨hset, hconfigured, hcounts⟩ := readCounts_ok.mp htally
  refine readCounts_ok.mpr ⟨by rwa [hadmin], by rwa [hchoices], ?_⟩
  rw [hcounts, choiceCount, choiceCount, hchoices]
  apply List.map_congr_left
  intro choice _
  exact (h.votes choice).symm

omit [DecidableEq Hash] in
theorem Certifies.matches {ctx : Context} (h : Certifies commitHash ctx s t) :
    Matches commitHash t := by
  obtain ⟨winner, _, rfl⟩ := h.winner
  intro hash hhash
  cases hhash
  exact ⟨winner, _, rfl, readCounts_ok.mpr ⟨h.admin, h.choices, rfl⟩, rfl⟩

/-- What a call does to a certificate that is there already. -/
theorem Certifying.same {past : List (Entry (FullState Hash) (FullInvocation Hash))}
    (hs : Certifying commitHash past s) (hcertified : s.certifiedHash ≠ none)
    (hnow : s.certifiedAt.getD 0 ≤ i.sequence) (h : execFull host commitHash i s = .ok t) :
    (SameResult s t ↔ lateBallots s i.call = 0) ∧ t.admin = s.admin ∧ t.choices = s.choices ∧
      i.call ≠ .certifyResults := by
  obtain ⟨hadmin, _, hclosed⟩ := hs.terms hcertified
  cases execFull_outcome h with
  | counted certificate added call =>
    obtain ⟨amount, hadded, hlate⟩ := added hadmin
    have hamount := hlate (by omega)
    rw [hadded.sameResult_iff certificate, hamount]
    exact ⟨Iff.rfl, hadded.admin, hadded.choices, call⟩
  | resolved choice call admin result =>
    subst result
    rw [call]
    exact ⟨iff_of_true ⟨rfl, fun _ => rfl, rfl, rfl⟩ rfl, rfl, rfl, by simp⟩
  | certified call result => exact absurd result.fresh hcertified

theorem Certifying.step {past : List (Entry (FullState Hash) (FullInvocation Hash))}
    (hs : Certifying commitHash past s) (hnow : s.certifiedAt.getD 0 ≤ i.sequence)
    (h : execFull host commitHash i s = .ok t) :
    Certifying commitHash (past ++ [⟨s, i, t⟩]) t := by
  have hquiet : NoLateBallots (past ++ [⟨s, i, t⟩]) ↔
      NoLateBallots past ∧ (s.certifiedHash ≠ none → lateBallots s i.call = 0) := by
    unfold NoLateBallots
    rw [List.forall_mem_append, List.forall_mem_singleton]
  have hmatches : t.certifiedHash = s.certifiedHash → NoLateBallots (past ++ [⟨s, i, t⟩]) →
      Matches commitHash t := by
    intro hhash hall
    obtain ⟨hbefore, hlate⟩ := hquiet.mp hall
    by_cases hcertified : s.certifiedHash = none
    · intro hash hsome
      rw [hhash, hcertified] at hsome
      cases hsome
    · obtain ⟨hsame, hadmin, hchoices, _⟩ := hs.same hcertified hnow h
      exact (hsame.mpr (hlate hcertified)).matches hadmin hchoices (hs.matching hbefore)
  have hnoted : i.call ≠ .certifyResults → t.certifiedHash = s.certifiedHash →
      (∃ e ∈ past ++ [⟨s, i, t⟩], e.invocation.call = .certifyResults) →
        t.certifiedHash ≠ none := by
    rintro hcall hhash ⟨e, he, hcertify⟩
    rw [hhash]
    rcases List.mem_append.mp he with he | he
    · exact hs.noted ⟨e, he, hcertify⟩
    · rw [List.mem_singleton.mp he] at hcertify
      exact absurd hcertify hcall
  cases execFull_outcome h with
  | counted certificate added call =>
    refine ⟨fun hcertified => ?_, fun winner hwinner => ?_, hnoted call certificate.hash,
      hmatches certificate.hash⟩
    · rw [certificate.hash] at hcertified
      obtain ⟨hadmin, hchoices, hclosed⟩ := hs.terms hcertified
      obtain ⟨_, hadded, _⟩ := added hadmin
      rw [hadded.admin, hadded.choices, hadded.votingEnd, certificate.certifiedAt]
      exact ⟨hadmin, hchoices, hclosed⟩
    · rw [certificate.resolution] at hwinner
      exact (hs.resolution winner hwinner).mono _
  | resolved choice call admin result =>
    subst result
    refine ⟨hs.terms, fun winner hwinner => ?_, hnoted (by simp [call]) rfl, hmatches rfl⟩
    obtain ⟨admin, hadmin, hauth⟩ := admin
    refine ⟨_, List.mem_append_right _ List.mem_cons_self, choice, admin, call, ?_, hadmin, hauth⟩
    exact Option.some_inj.mp hwinner
  | certified call result =>
    have hmatch := result.matches
    obtain ⟨winner, _, rfl⟩ := result.winner
    exact ⟨fun _ => ⟨result.admin, result.choices, result.closed⟩,
      fun winner hwinner => (hs.resolution winner hwinner).mono _, fun _ => by simp,
      fun _ => hmatch⟩

omit [DecidableEq Hash] in
theorem Certifies.after {past : List (Entry (FullState Hash) (FullInvocation Hash))}
    (hs : Certifying commitHash past s) (h : Certifies commitHash i.toContext s t) :
    CertifiedAfter past ⟨s, i, t⟩ := by
  obtain ⟨winner, hwins, rfl⟩ := h.winner
  refine ⟨h.closed, h.quorum, winner, rfl, hwins.leads, ?_⟩
  rcases hwins.sole with hsole | ⟨hpolicy, hresolved⟩
  · exact .inl hsole
  · exact .inr ⟨hpolicy, hs.resolution winner hresolved⟩

theorem certifiedAt_le (h : execFull host commitHash i s = .ok t) :
    t.certifiedAt.getD 0 ≤ max (s.certifiedAt.getD 0) i.sequence := by
  cases execFull_outcome h with
  | counted certificate added call =>
    rw [certificate.certifiedAt]
    exact le_max_left _ _
  | resolved choice call admin result =>
    subst result
    exact le_max_left _ _
  | certified call result =>
    obtain ⟨winner, _, rfl⟩ := result.winner
    exact le_max_right _ _

/-- In every run, certificates are as they should be exactly if no ballot is counted after one. -/
theorem certified_results_final (is : List (FullInvocation Hash))
    (hclock : is.Pairwise fun i j => i.sequence ≤ j.sequence) :
    Certified commitHash (historyFull host commitHash is) ↔
      NoLateBallots (historyFull host commitHash is) := by
  have htime : Along (execFull host commitHash)
      (fun s i => s.certifiedAt.getD 0 ≤ i.sequence) {} is :=
    along_clock (fun _ _ _ h => certifiedAt_le h) (fun _ _ => Nat.zero_le _) hclock
  have hsplit : ∀ past e later, historyFull host commitHash is = past ++ e :: later →
      Certifying commitHash past e.before ∧ e.before.certifiedAt.getD 0 ≤ e.invocation.sequence ∧
        execFull host commitHash e.invocation e.before = .ok e.after := fun past e later heq =>
    history_split (I := Certifying commitHash) (fun past s i t hs hnow h => hs.step hnow h)
      certifying_start htime heq
  have hlate : ∀ e ∈ historyFull host commitHash is, e.before.certifiedHash ≠ none →
      (SameResult e.before e.after ↔ lateBallots e.before e.invocation.call = 0) := by
    intro e he hcertified
    obtain ⟨past, later, heq⟩ := List.append_of_mem he
    obtain ⟨hs, hnow, h⟩ := hsplit past e later heq
    exact (hs.same hcertified hnow h).1
  constructor
  · intro hlaw e he hcertified
    exact (hlate e he hcertified).mp (hlaw.final e he hcertified)
  · intro hquiet
    refine ⟨?_, ?_, fun e he hcertified => (hlate e he hcertified).mpr (hquiet e he hcertified), ?_⟩
    · intro past e later heq hcertify f hf hagain
      obtain ⟨between, rest, rfl⟩ := List.append_of_mem hf
      have hnext : historyFull host commitHash is = (past ++ e :: between) ++ f :: rest := by
        rw [heq, List.append_assoc, List.cons_append]
      obtain ⟨hs, hnow, h⟩ := hsplit _ f rest hnext
      have hnoted := hs.noted ⟨e, List.mem_append_right _ List.mem_cons_self, hcertify⟩
      exact (hs.same hnoted hnow h).2.2.2 hagain
    · intro past e later heq hcertify
      obtain ⟨hs, _, h⟩ := hsplit past e later heq
      cases execFull_outcome h with
      | counted certificate added call => exact absurd hcertify call
      | resolved choice call admin result => simp [call] at hcertify
      | certified call result => exact result.after hs
    · intro e he
      obtain ⟨past, later, heq⟩ := List.append_of_mem he
      obtain ⟨hs, hnow, h⟩ := hsplit past e later heq
      apply (hs.step hnow h).matching
      intro f hf
      apply hquiet f
      rw [heq, List.append_cons]
      exact List.mem_append_left _ hf

end Law

def demoOther : Address := ⟨3⟩

def demoFull (sequence : ℕ) (call : FullCall Bytes) : FullInvocation Bytes where
  sequence := sequence
  auths := [demoAdmin, demoVoter, demoOther]
  call := call

/-- One voter votes "no" and another has a blinded "yes" when "no" is certified. -/
def demoElection : List (FullInvocation Bytes) :=
  [demoFull 1 (.ballot (.initializeBallot demoAdmin 20 40 ["no", "yes"] 1)),
    demoFull 2 (.ballot (.registerVoter demoVoter)),
    demoFull 2 (.ballot (.registerVoter demoOther)),
    demoFull 20 (.ballot (.vote demoVoter 0)),
    demoFull 20 (.ballot .startCommitPhase),
    demoFull 21 (.ballot (.commitVoteBlinded demoOther [9, 0, 0, 0, 1, 9])),
    demoFull 41 .tallyAll,
    demoFull 42 .certifyResults]

/-- The other voter is revealed afterwards. -/
def demoOvertaken : List (FullInvocation Bytes) :=
  demoElection ++ [demoFull 43 (.ballot .startRevealPhase),
    demoFull 44 (.ballot (.revealVoteBlinded [9, 0, 0, 0, 1, 9] [9] 1 [9]))]

theorem certified_results_final_demo : Certified id (historyFull demoHost id demoElection) :=
  (certified_results_final demoElection (by decide)).mpr
    (show ∀ e ∈ historyFull demoHost id demoElection,
      e.before.certifiedHash ≠ none → lateBallots e.before e.invocation.call = 0 by decide +kernel)

theorem certificate_overtaken : ¬ ∀ is : List (FullInvocation Bytes),
    (is.Pairwise fun i j => i.sequence ≤ j.sequence) →
      Certified id (historyFull demoHost id is) := by
  intro h
  have hlate : ∃ e ∈ historyFull demoHost id demoOvertaken,
      e.before.certifiedHash ≠ none ∧ e.after.totalVotes.getD 0 ≠ e.before.totalVotes.getD 0 := by
    decide +kernel
  obtain ⟨e, he, hcertified, htotal⟩ := hlate
  exact htotal ((h demoOvertaken (by decide)).final e he hcertified).total

end SorobanKit.Ballot
