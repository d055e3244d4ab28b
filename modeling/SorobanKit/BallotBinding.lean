import SorobanKit.BallotTallies
import SorobanKit.CommonMath

set_option autoImplicit false

/-!
# What a commitment binds

The preimage of a plain reveal starts with the string of the voter, which has a fixed length, so the
choice stands at one place. A blinded reveal cuts the preimage into secret, choice and proof wherever
it likes, and any four bytes of it that spell a choice will do.
-/
namespace SorobanKit.Ballot
open HostInteger HostInvocation
open HostRuns (Entry history_invariant_along along_true)

section Encodings
variable {choice other : UInt32} {preimage : Bytes}

theorem toBeBytes_injective : Function.Injective toBeBytes := by
  intro m n h
  simp only [toBeBytes, List.cons.injEq, and_true] at h
  obtain ⟨h₃, h₂, h₁, h₀⟩ := h
  have h₃ := congrArg UInt8.toNat h₃
  have h₂ := congrArg UInt8.toNat h₂
  have h₁ := congrArg UInt8.toNat h₁
  have h₀ := congrArg UInt8.toNat h₀
  have hm := m.toNat_lt
  have hn := n.toNat_lt
  simp [UInt32.toNat_shiftRight, Nat.shiftRight_eq_div_pow] at h₃ h₂ h₁ h₀
  apply UInt32.toNat_inj.mp
  omega

theorem toBeBytes_length : (toBeBytes choice).length = 4 := rfl

theorem choice_eq_of_prefix {a b : Bytes} (hlength : a.length = b.length)
    (ha : a ++ toBeBytes choice <+: preimage) (hb : b ++ toBeBytes other <+: preimage) :
    choice = other := by
  have hsame : (a ++ toBeBytes choice).length = (b ++ toBeBytes other).length := by
    rw [List.length_append, List.length_append, toBeBytes_length, toBeBytes_length, hlength]
  have heq := (List.prefix_of_prefix_length_le ha hb hsame.le).eq_of_length hsame
  exact toBeBytes_injective (List.append_inj heq hlength).2

end Encodings

section Reveals
variable {Hash : Type} [DecidableEq Hash] (host : Host Hash) (h : Hash) (s : State Hash)

/-- Some reveal of the commitment with the choice returns. -/
inductive Reveals (choice : UInt32) : Prop where
  | plain (ctx : Context) (voter : Address) (salt : Bytes) (t : State Hash)
      (stored : s.commitment.lookup voter = some h)
      (returns : revealVote host ctx voter choice salt s = .ok t)
  | blinded (secret proof : Bytes) (t : State Hash)
      (returns : revealVoteBlinded host h secret choice proof s = .ok t)

/-- The commitment can be revealed with one choice at most. -/
def Binding : Prop := ∀ choice other, Reveals host h s choice → Reveals host h s other → choice = other

/-- A blinded reveal of the commitment is possible. -/
structure Hidden : Prop where
  phase : s.revealPhase.getD false = true
  stored : h ∈ s.commitmentHash
  unrevealed : h ∉ s.revealedCommitment

/-- The counters have room for a ballot. -/
def Room (choice : UInt32) (weight : ℕ) : Prop := ∃ t, recordVote choice.toNat weight s = .ok t

/-- The choice can be read out of the preimage: after the string of a registered voter whose
    commitment it is, or, if it exists, anywhere. -/
inductive Reads (preimage : Bytes) (choice : UInt32) : Prop where
  | plain (voter : Address) (registered : isRegistered voter s = true)
      (stored : s.commitment.lookup voter = some h)
      (spelled : host.addressBytes voter ++ toBeBytes choice <+: preimage)
      (room : Room s choice (voterWeight voter s))
  | blinded (hidden : Hidden h s) (choices : List String) (known : s.choices = some choices)
      (valid : choice.toNat < choices.length) (spelled : toBeBytes choice <:+: preimage)
      (room : Room s choice 1)

variable {host h s} {choice other : UInt32} {preimage : Bytes}

omit [DecidableEq Hash] in
theorem countVote_returns (voter : Address) {amount : ℕ} :
    (∃ t, countVote voter choice.toNat amount s = .ok t) ↔ Room s choice amount := by
  simp only [countVote, Room, bind_eq_ok, pure_eq_ok]
  constructor
  · rintro ⟨_, u, hrecord, _⟩
    exact ⟨u, hrecord⟩
  · rintro ⟨u, hrecord⟩
    exact ⟨_, u, hrecord, rfl⟩

theorem countBlinded_returns : (∃ t, countBlinded h choice.toNat s = .ok t) ↔ Room s choice 1 := by
  unfold countBlinded
  split
  · exact countVote_returns _
  · exact Iff.rfl

theorem revealVote_returns {ctx : Context} {voter : Address} {salt : Bytes}
    (hstored : s.commitment.lookup voter = some h) :
    (∃ t, revealVote host ctx voter choice salt s = .ok t) ↔
      voter ∈ ctx.auths ∧ isRegistered voter s = true ∧ s.revealPhase.getD false = true ∧
        host.sha256 (host.addressBytes voter ++ toBeBytes choice ++ salt) = h ∧
        Room s choice (voterWeight voter s) := by
  rw [← countVote_returns voter]
  simp only [revealVote, requireRegistered, requireRevealPhase, hstored, bind_eq_ok,
    requireAuth_eq_ok, trapUnless_eq_ok, unwrap_eq_ok, pure_eq_ok, Option.some_inj]
  constructor
  · rintro ⟨_, _, hauth, _, hregistered, _, hphase, _, rfl, _, hhash, u, hcount, _⟩
    exact ⟨hauth, hregistered, hphase, hhash, u, hcount⟩
  · rintro ⟨hauth, hregistered, hphase, hhash, u, hcount⟩
    exact ⟨_, (), hauth, (), hregistered, (), hphase, h, rfl, (), hhash, u, hcount, rfl⟩

theorem revealVoteBlinded_returns {secret proof : Bytes} :
    (∃ t, revealVoteBlinded host h secret choice proof s = .ok t) ↔
      Hidden h s ∧ (∃ choices, s.choices = some choices ∧ choice.toNat < choices.length) ∧
        host.sha256 (secret ++ toBeBytes choice ++ proof) = h ∧ Room s choice 1 := by
  rw [← countBlinded_returns (h := h)]
  simp only [revealVoteBlinded, requireRevealPhase, bind_eq_ok, trapUnless_eq_ok, unwrap_eq_ok,
    pure_eq_ok]
  constructor
  · rintro ⟨_, _, hphase, _, hstored, _, hnew, choices, hchoices, _, hlt, _, hhash, u, hcount, _⟩
    exact ⟨⟨hphase, hstored, hnew⟩, ⟨choices, hchoices, hlt⟩, hhash, u, hcount⟩
  · rintro ⟨hhidden, ⟨choices, hchoices, hlt⟩, hhash, u, hcount⟩
    exact ⟨_, (), hhidden.phase, (), hhidden.stored, (), hhidden.unrevealed, choices, hchoices, (), hlt,
      (), hhash, u, hcount, rfl⟩

theorem reveals_iff : Reveals host h s choice ↔
    s.revealPhase.getD false = true ∧ ∃ preimage, host.sha256 preimage = h ∧
      Reads host h s preimage choice := by
  constructor
  · rintro (⟨ctx, voter, salt, t, hstored, hreturns⟩ | ⟨secret, proof, t, hreturns⟩)
    · obtain ⟨_, hregistered, hphase, hhash, hroom⟩ := (revealVote_returns hstored).mp ⟨t, hreturns⟩
      exact ⟨hphase, _, hhash, .plain voter hregistered hstored ⟨salt, rfl⟩ hroom⟩
    · rcases revealVoteBlinded_returns.mp ⟨t, hreturns⟩ with
        ⟨hhidden, ⟨choices, hknown, hvalid⟩, hhash, hroom⟩
      exact ⟨hhidden.phase, _, hhash, .blinded hhidden choices hknown hvalid ⟨secret, proof, rfl⟩ hroom⟩
  · rintro ⟨hphase, preimage, hhash, hreads⟩
    cases hreads with
    | plain voter hregistered hstored hspelled hroom =>
      obtain ⟨salt, rfl⟩ := hspelled
      let ctx : Context := ⟨0, [voter]⟩
      have hreturns : ∃ t, revealVote host ctx voter choice salt s = .ok t :=
        (revealVote_returns hstored).mpr
          ⟨List.mem_singleton_self voter, hregistered, hphase, hhash, hroom⟩
      obtain ⟨t, hreturns⟩ := hreturns
      exact .plain _ voter salt t hstored hreturns
    | blinded hhidden choices hknown hvalid hspelled hroom =>
      obtain ⟨secret, proof, rfl⟩ := hspelled
      rcases revealVoteBlinded_returns.mpr ⟨hhidden, ⟨choices, hknown, hvalid⟩, hhash, hroom⟩ with
        ⟨t, hreturns⟩
      exact .blinded secret proof t hreturns

omit [DecidableEq Hash] in
theorem Reads.plain_unique {length : ℕ} (hlength : ∀ a, (host.addressBytes a).length = length)
    (hhidden : ¬ Hidden h s) (hchoice : Reads host h s preimage choice)
    (hother : Reads host h s preimage other) : choice = other := by
  cases hchoice with
  | blinded hidden => exact absurd hidden hhidden
  | plain voter _ _ hspelled _ =>
    cases hother with
    | blinded hidden => exact absurd hidden hhidden
    | plain voter' _ _ hspelled' _ =>
      exact choice_eq_of_prefix ((hlength voter).trans (hlength voter').symm) hspelled hspelled'

theorem binding_iff_reads {length : ℕ} (hinj : Function.Injective host.sha256)
    (hlength : ∀ a, (host.addressBytes a).length = length) :
    Binding host h s ↔ (Hidden h s → ∀ preimage, host.sha256 preimage = h →
      ∀ choice other, Reads host h s preimage choice → Reads host h s preimage other →
        choice = other) := by
  constructor
  · intro hbinding hhidden preimage hhash choice other hchoice hother
    exact hbinding choice other (reveals_iff.mpr ⟨hhidden.phase, preimage, hhash, hchoice⟩)
      (reveals_iff.mpr ⟨hhidden.phase, preimage, hhash, hother⟩)
  · intro hunique choice other hchoice hother
    obtain ⟨_, preimage, hhash, hchoice⟩ := reveals_iff.mp hchoice
    obtain ⟨_, preimage', hhash', hother⟩ := reveals_iff.mp hother
    obtain rfl : preimage' = preimage := hinj (hhash'.trans hhash.symm)
    by_cases hhidden : Hidden h s
    · exact hunique hhidden preimage' hhash choice other hchoice hother
    · exact hchoice.plain_unique hlength hhidden hother

end Reveals

section Runs
variable {Hash : Type} [DecidableEq Hash] {host : Host Hash} {i : Invocation Hash} {s t u : State Hash}
  {h : Hash} {choice other : UInt32} {preimage : Bytes} {count : ℕ}

/-- Whoever has committed, the choice can be read out of the preimage. -/
def Legible (host : Host Hash) (count : ℕ) (preimage : Bytes) (choice : UInt32) : Prop :=
  (∃ a, host.addressBytes a ++ toBeBytes choice <+: preimage) ∨
    (choice.toNat < count ∧ toBeBytes choice <:+: preimage)

def OneReading (host : Host Hash) (count : ℕ) (h : Hash) : Prop :=
  ∀ preimage, host.sha256 preimage = h → ∀ choice other, Legible host count preimage choice →
    Legible host count preimage other → choice = other

/-- The condition on a call: what is committed blinded can be read in one way. -/
def Single (host : Host Hash) (s : State Hash) (call : Call Hash) : Prop :=
  match call with
  | .commitVoteBlinded _ commitment => OneReading host (choiceCount s) commitment
  | _ => True

omit [DecidableEq Hash] in
theorem Reads.legible (hreads : Reads host h s preimage choice) :
    Legible host (choiceCount s) preimage choice := by
  cases hreads with
  | plain voter _ _ hspelled _ => exact .inl ⟨voter, hspelled⟩
  | blinded _ choices hknown hvalid hspelled _ =>
    refine .inr ⟨?_, hspelled⟩
    rw [choiceCount, hknown]
    exact hvalid

/-- What a returning call does to blinded commitments and to registrations. -/
structure Commits (i : Invocation Hash) (s t : State Hash) : Prop where
  hashes : ∀ c ∈ t.commitmentHash, c ∈ s.commitmentHash ∨
    ∃ voter, i.call = .commitVoteBlinded voter c ∧ isRegistered voter s = true
  voters : s.admin ≠ none ∨ t.registeredVoter = s.registeredVoter

omit [DecidableEq Hash] in
theorem requireAdmin_admin {ctx : Context} (h : requireAdmin ctx s = .ok ()) : s.admin ≠ none := by
  simp only [requireAdmin, bind_eq_ok, okOr_eq_ok] at h
  obtain ⟨admin, hadmin, _⟩ := h
  simp [hadmin]

theorem countBlinded_same {c : Hash} {n : ℕ} (h : countBlinded c n s = .ok t) :
    t.commitmentHash = s.commitmentHash ∧ t.registeredVoter = s.registeredVoter := by
  unfold countBlinded at h
  split at h
  · rw [(countVote_ok h).result]
    exact ⟨rfl, rfl⟩
  · rw [(recordVote_ok h).result]
    exact ⟨rfl, rfl⟩

theorem exec_commits (h : exec host i s = .ok t) : Commits i s t := by
  cases hcall : i.call with
  | initializeBallot admin votingStart votingEnd choices quorum =>
    simp only [exec, hcall, initializeBallot, bind_eq_ok, pure_eq_ok] at h
    obtain ⟨_, _, _, _, _, _, _, _, _, _, _, _, _, _, rfl⟩ := h
    exact ⟨fun _ hc => .inl hc, .inr rfl⟩
  | registerVoter voter =>
    simp only [exec, hcall, registerVoter, registerWithWeight, bind_eq_ok, pure_eq_ok] at h
    obtain ⟨_, hadmin, rfl⟩ := h
    exact ⟨fun _ hc => .inl hc, .inl (requireAdmin_admin hadmin)⟩
  | registerVoterWithWeight voter weight =>
    simp only [exec, hcall, registerVoterWithWeight, registerWithWeight, bind_eq_ok, pure_eq_ok] at h
    obtain ⟨_, hadmin, rfl⟩ := h
    exact ⟨fun _ hc => .inl hc, .inl (requireAdmin_admin hadmin)⟩
  | deregisterVoter voter =>
    simp only [exec, hcall, deregisterVoter, bind_eq_ok, pure_eq_ok] at h
    obtain ⟨_, hadmin, _, _, _, _, rfl⟩ := h
    exact ⟨fun _ hc => .inl hc, .inl (requireAdmin_admin hadmin)⟩
  | vote voter choice =>
    simp only [exec, hcall, vote, bind_eq_ok, pure_eq_ok] at h
    obtain ⟨_, _, _, _, _, _, _, _, _, _, _, _, u, hcount, rfl⟩ := h
    rw [(countVote_ok hcount).result]
    exact ⟨fun _ hc => .inl hc, .inr rfl⟩
  | startCommitPhase =>
    simp only [exec, hcall, startCommitPhase, bind_eq_ok, pure_eq_ok] at h
    obtain ⟨_, _, _, _, rfl⟩ := h
    exact ⟨fun _ hc => .inl hc, .inr rfl⟩
  | startRevealPhase =>
    simp only [exec, hcall, startRevealPhase, bind_eq_ok, pure_eq_ok] at h
    obtain ⟨_, _, _, _, rfl⟩ := h
    exact ⟨fun _ hc => .inl hc, .inr rfl⟩
  | commitVote voter commitment =>
    simp only [exec, hcall, commitVote, bind_eq_ok, pure_eq_ok] at h
    obtain ⟨_, _, rfl⟩ := h
    exact ⟨fun _ hc => .inl hc, .inr rfl⟩
  | commitVoteBlinded voter commitment =>
    simp only [exec, hcall, commitVoteBlinded, checkCommit, requireRegistered, bind_eq_ok,
      trapUnless_eq_ok, pure_eq_ok] at h
    obtain ⟨_, ⟨_, _, _, hregistered, _⟩, _, _, _, _, rfl⟩ := h
    refine ⟨fun c hc => ?_, .inr rfl⟩
    rcases Finmap.mem_insert.mp hc with rfl | hc
    · exact .inr ⟨voter, hcall, hregistered⟩
    · exact .inl hc
  | revealVote voter choice salt =>
    simp only [exec, hcall, revealVote, bind_eq_ok, pure_eq_ok] at h
    obtain ⟨_, _, _, _, _, _, _, _, _, _, u, hcount, rfl⟩ := h
    rw [(countVote_ok hcount).result]
    exact ⟨fun _ hc => .inl hc, .inr rfl⟩
  | revealVoteBlinded commitment secret choice proof =>
    simp only [exec, hcall, revealVoteBlinded, bind_eq_ok, pure_eq_ok] at h
    obtain ⟨_, _, _, _, _, _, _, _, _, _, _, _, u, hcount, rfl⟩ := h
    obtain ⟨hhashes, hvoters⟩ := countBlinded_same hcount
    refine ⟨fun c hc => ?_, .inr hvoters⟩
    dsimp only at hc
    rw [hhashes] at hc
    exact .inl (Finmap.mem_erase.mp hc).2

/-- Every blinded commitment can be read in one way, and nothing happens before the ballot is set up. -/
structure Bound (host : Host Hash) (s : State Hash) : Prop where
  backed : Backed s
  idle : s.admin = none → s.choices = none ∧ ∀ voter, isRegistered voter s = false
  single : ∀ c ∈ s.commitmentHash, OneReading host (choiceCount s) c
  opened : ∀ c ∈ s.commitmentHash, s.admin ≠ none

theorem bound_empty : Bound host ({} : State Hash) :=
  ⟨backed_empty, fun _ => ⟨rfl, fun _ => rfl⟩, fun _ hc => absurd hc Finmap.notMem_empty,
    fun _ hc => absurd hc Finmap.notMem_empty⟩

theorem choices_kept (hs : Backed s) (h : exec host i s = .ok t) (hadmin : s.admin ≠ none) :
    t.admin = s.admin ∧ t.choices = s.choices := by
  cases exec_effect hs h with
  | opened fresh => exact absurd fresh hadmin
  | kept admin choices => exact ⟨admin, choices⟩
  | cast b admin choices => exact ⟨admin, choices⟩

theorem Bound.step (hs : Bound host s) (hsingle : Single host s i.call) (h : exec host i s = .ok t) :
    Bound host t := by
  have hbacked := exec_backed hs.backed h
  have hcommits := exec_commits h
  have hnew : ∀ c ∈ t.commitmentHash, s.admin ≠ none ∧ OneReading host (choiceCount s) c := by
    intro c hc
    rcases hcommits.hashes c hc with hc | ⟨voter, hcall, hregistered⟩
    · exact ⟨hs.opened c hc, hs.single c hc⟩
    · rw [hcall] at hsingle
      refine ⟨fun hnone => ?_, hsingle⟩
      rw [(hs.idle hnone).2 voter] at hregistered
      cases hregistered
  refine ⟨hbacked, fun hnone => ?_, fun c hc => ?_, fun c hc => ?_⟩
  · have hbefore : s.admin = none := by
      by_contra hadmin
      rw [(choices_kept hs.backed h hadmin).1] at hnone
      exact hadmin hnone
    obtain ⟨hchoices, hvoters⟩ := hs.idle hbefore
    have hsame := hcommits.voters.resolve_left (fun hadmin => hadmin hbefore)
    refine ⟨?_, fun voter => ?_⟩
    · cases exec_effect hs.backed h with
      | opened _ admin => exact absurd hnone admin
      | kept _ choices => exact choices.trans hchoices
      | cast _ _ choices => exact choices.trans hchoices
    · rw [isRegistered, hsame]
      exact hvoters voter
  · obtain ⟨hadmin, hone⟩ := hnew c hc
    rw [choiceCount, (choices_kept hs.backed h hadmin).2]
    exact hone
  · obtain ⟨hadmin, _⟩ := hnew c hc
    rw [(choices_kept hs.backed h hadmin).1]
    exact hadmin

theorem bound_run {is : List (Invocation Hash)} (hs : Bound host s)
    (hsingle : HostRuns.Along (exec host)
      (fun s i => ∀ t, exec host i s = .ok t → Single host s i.call) s is) :
    Bound host (HostRuns.run (exec host) s is) :=
  HostRuns.run_invariant_along (fun _ _ t hs hi h => hs.step (hi t h) h) hs hsingle

theorem choiceCount_run {is : List (Invocation Hash)} (hs : Backed s) (hadmin : s.admin ≠ none) :
    choiceCount (HostRuns.run (exec host) s is) = choiceCount s := by
  have hkept : ∀ u v : State Hash, ∀ i,
      (Backed u ∧ u.admin ≠ none ∧ choiceCount u = choiceCount s) → exec host i u = .ok v →
        Backed v ∧ v.admin ≠ none ∧ choiceCount v = choiceCount s := by
    rintro u v i ⟨hu, hset, hcount⟩ h
    obtain ⟨hadmin, hchoices⟩ := choices_kept hu h hset
    refine ⟨exec_backed hu h, ?_, ?_⟩
    · rw [hadmin]
      exact hset
    · rw [choiceCount, hchoices]
      exact hcount
  exact (HostRuns.run_invariant (fun u i v hu h => hkept u v i hu h) ⟨hs, hadmin, rfl⟩ is).2.2

/-- In a run in which only commitments with one reading are made blinded, a commitment that is revealed
    at one time could be revealed with no other choice then or later. -/
theorem reveals_once {length : ℕ} (hinj : Function.Injective host.sha256)
    (hlength : ∀ a, (host.addressBytes a).length = length) {is js : List (Invocation Hash)}
    (hsingle : ∀ e ∈ history host (is ++ js), Single host e.before e.invocation.call)
    (hchoice : Reveals host h (run host is) choice)
    (hother : Reveals host h (run host (is ++ js)) other) : choice = other := by
  let Q : State Hash → Invocation Hash → Prop := fun s i => Single host s i.call
  have hcalls := HostRuns.along_append.mp (HostRuns.along_of_history (Q := Q) hsingle)
  have hs : Bound host (run host is) := bound_run bound_empty hcalls.1
  have hu : Bound host (run host (is ++ js)) := by
    rw [run, HostRuns.run_append]
    exact bound_run hs hcalls.2
  obtain ⟨_, preimage, hhash, hchoice⟩ := reveals_iff.mp hchoice
  obtain ⟨_, preimage', hhash', hother⟩ := reveals_iff.mp hother
  obtain rfl : preimage' = preimage := hinj (hhash'.trans hhash.symm)
  cases hchoice with
  | plain voter registered stored spelled room =>
    cases hother with
    | plain voter' _ _ spelled' _ =>
      exact choice_eq_of_prefix ((hlength voter).trans (hlength voter').symm) spelled spelled'
    | blinded hidden choices known valid spelled' room =>
      have hread : Reads host h (run host (is ++ js)) preimage' other :=
        .blinded hidden choices known valid spelled' room
      exact hu.single h hidden.stored preimage' hhash' _ _ (.inl ⟨voter, spelled⟩) hread.legible
  | blinded hidden choices known valid spelled room =>
    have hcount : choiceCount (run host (is ++ js)) = choiceCount (run host is) := by
      rw [run, HostRuns.run_append]
      exact choiceCount_run hs.backed (hs.opened h hidden.stored)
    have hlegible := hother.legible
    rw [hcount] at hlegible
    have hread : Reads host h (run host is) preimage' choice :=
      .blinded hidden choices known valid spelled room
    exact hs.single h hidden.stored preimage' hhash' _ _ hread.legible hlegible

/-- A commitment binds in a state exactly if no blinded reveal of it is possible or its preimage can be
    read in one way there, and in every run without blinded commitments that can be read in two ways
    no commitment is revealed with two choices. -/
theorem commitments_bind_iff {length : ℕ} (hinj : Function.Injective host.sha256)
    (hlength : ∀ a, (host.addressBytes a).length = length) :
    (∀ h s, Binding host h s ↔ (Hidden h s → ∀ preimage, host.sha256 preimage = h →
      ∀ choice other, Reads host h s preimage choice → Reads host h s preimage other →
        choice = other)) ∧
    ∀ is js, (∀ e ∈ history host (is ++ js), Single host e.before e.invocation.call) →
      ∀ h choice other, Reveals host h (run host is) choice →
        Reveals host h (run host (is ++ js)) other → choice = other :=
  ⟨fun _ _ => binding_iff_reads hinj hlength,
    fun _ _ hsingle _ _ _ hchoice hother => reveals_once hinj hlength hsingle hchoice hother⟩

end Runs

theorem demoHost_injective : Function.Injective demoHost.sha256 := Function.injective_id

theorem demoHost_length (a : Address) : (demoHost.addressBytes a).length = 1 := rfl

/-- A commitment that is ready to be revealed. -/
def demoCommitted (call : Call Bytes) : List (Invocation Bytes) :=
  demoBallot 1 ++ [demoInvoke 20 .startCommitPhase, demoInvoke 20 call, demoInvoke 20 .startRevealPhase]

/-- A plain commitment to "yes" can be revealed, and binds. -/
theorem commitments_bind_demo :
    Binding demoHost [2, 0, 0, 0, 1, 7]
      (run demoHost (demoCommitted (.commitVote demoVoter [2, 0, 0, 0, 1, 7]))) ∧
    (revealVote demoHost ⟨20, [demoVoter]⟩ demoVoter 1 [7]
      (run demoHost (demoCommitted (.commitVote demoVoter [2, 0, 0, 0, 1, 7])))).toOption.isSome := by
  refine ⟨((commitments_bind_iff demoHost_injective demoHost_length).1 _ _).mpr fun hidden => ?_,
    by decide +kernel⟩
  exact absurd hidden.stored (by decide +kernel)

def demoDouble : State Bytes := run demoHost (demoCommitted (.commitVoteBlinded demoVoter [0, 0, 0, 0, 1]))

/-- `00000000 01` is "no" with the proof `01`, and "yes" with the secret `00`. -/
theorem blinded_commitment_open :
    Function.Injective demoHost.sha256 ∧ (∀ a, (demoHost.addressBytes a).length = 1) ∧
    [0, 0, 0, 0, 1] ∈ demoDouble.commitmentHash ∧
    Reveals demoHost [0, 0, 0, 0, 1] demoDouble 0 ∧ Reveals demoHost [0, 0, 0, 0, 1] demoDouble 1 ∧
    ¬ Binding demoHost [0, 0, 0, 0, 1] demoDouble := by
  have hno : (revealVoteBlinded demoHost [0, 0, 0, 0, 1] [] 0 [1] demoDouble).toOption.isSome := by
    decide +kernel
  have hyes : (revealVoteBlinded demoHost [0, 0, 0, 0, 1] [0] 1 [] demoDouble).toOption.isSome := by
    decide +kernel
  obtain ⟨t, ht⟩ := Option.isSome_iff_exists.mp hno
  obtain ⟨u, hu⟩ := Option.isSome_iff_exists.mp hyes
  have hno : Reveals demoHost [0, 0, 0, 0, 1] demoDouble 0 :=
    .blinded [] [1] t (CommonMath.toOption_eq_some.mp ht)
  have hyes : Reveals demoHost [0, 0, 0, 0, 1] demoDouble 1 :=
    .blinded [0] [] u (CommonMath.toOption_eq_some.mp hu)
  refine ⟨demoHost_injective, demoHost_length, by decide +kernel, hno, hyes, fun hbinding => ?_⟩
  exact absurd (hbinding 0 1 hno hyes) (by decide)

end SorobanKit.Ballot
