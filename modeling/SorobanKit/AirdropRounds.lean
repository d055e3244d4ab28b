import SorobanKit.AirdropVesting

set_option autoImplicit false

/-!
# Rounds

Single, sponsored and batched claims of a round share one record of who was paid. A root is set
once and replaced only after the deadline, when nothing is paid any more, so all payments of a round
are proven against the same one.
-/
namespace SorobanKit.Airdrop
open HostBalances HostInteger HostInvocation HostRuns HostTransfers Merkle

def Purpose.roundId : Purpose → Option ℕ
  | .round roundId _ => some roundId
  | _ => none

/-- What a round paid to a recipient. -/
def paymentsOf (roundId : ℕ) (recipient : Address) (log : List (Transfer Purpose)) :
    List (Transfer Purpose) :=
  log.filter fun x => x.purpose.roundId = some roundId ∧ x.target = recipient

/-- Every payment of the round carries a proof against `root`. -/
def ProvenBy (host : Host) (roundId : ℕ) (root : Node) (log : List (Transfer Purpose)) : Prop :=
  ∀ x ∈ log, ∀ proof, x.purpose = .round roundId proof →
    host.verifyProof (host.computeRoundLeaf x.target x.amount) proof root = true

theorem paymentsOf_snoc (roundId : ℕ) (recipient : Address) (log : List (Transfer Purpose))
    (x : Transfer Purpose) :
    paymentsOf roundId recipient (log ++ [x]) = paymentsOf roundId recipient log ++
      if x.purpose.roundId = some roundId ∧ x.target = recipient then [x] else [] := by
  simp only [paymentsOf, List.filter_append, List.filter_cons, List.filter_nil, decide_eq_true_eq]

theorem ProvenBy.snoc {host : Host} {roundId : ℕ} {root : Node} {log : List (Transfer Purpose)}
    {x : Transfer Purpose} (h : ProvenBy host roundId root log)
    (hx : ∀ proof, x.purpose = .round roundId proof →
      host.verifyProof (host.computeRoundLeaf x.target x.amount) proof root = true) :
    ProvenBy host roundId root (log ++ [x]) := by
  intro y hy
  rcases List.mem_append.mp hy with hy | hy
  · exact h y hy
  · rw [List.mem_singleton.mp hy]
    exact hx

/-- What a payment of a round relies on, and what it does. -/
structure Paid (host : Host) (house : Address) (s : State) (roundId : ℕ) (recipient : Address)
    (amount : ℤ) (proof : List Node) (t : State) : Prop where
  fresh : (roundId, recipient) ∉ s.roundClaimed
  proven : ∃ root, s.roundRoots.lookup roundId = some root ∧
    host.verifyProof (host.computeRoundLeaf recipient amount) proof root = true
  after : ∃ token, t = { s with
    roundClaimed := s.roundClaimed.insert (roundId, recipient) true,
    transfers := s.transfers ++ [⟨.round roundId proof, token, house, recipient, amount⟩] }

section Steps
variable {host : Host} {house : Address} {env : Env} {roundId : ℕ} {recipient : Address} {amount : ℤ}
  {proof : List Node} {s t : State}

theorem payRound_ok {token : Address}
    (h : payRound house env token roundId recipient amount proof s = .ok t) :
    t = { s with
      roundClaimed := s.roundClaimed.insert (roundId, recipient) true,
      transfers := s.transfers ++ [⟨.round roundId proof, token, house, recipient, amount⟩] } :=
  recordTransfer_ok h

theorem payRound_error {token : Address} {e : Failure AirdropError}
    (h : payRound house env token roundId recipient amount proof s = .error e) : e = .trap := by
  unfold payRound callTransfer recordTransfer trapUnless at h
  split at h
  · cases h
  · exact (Except.error.inj h).symm

theorem loadRoundContext_ok {token : Address} {root : Node}
    (h : loadRoundContext env roundId s = .ok (token, root)) :
    s.roundRoots.lookup roundId = some root ∧
      ∃ deadline, s.claimDeadline = some deadline ∧ env.sequence ≤ deadline := by
  simp only [loadRoundContext, bind_eq_ok, okOr_eq_ok, rejectIf_eq_ok, pure_eq_ok, Prod.mk.injEq,
    not_lt] at h
  obtain ⟨_, _, _, hroot, deadline, hdeadline, _, hopen, rfl, rfl⟩ := h
  exact ⟨hroot, deadline, hdeadline, hopen⟩

theorem executeClaim_ok (h : executeClaim host house env roundId recipient amount proof s = .ok t) :
    (∃ deadline, s.claimDeadline = some deadline ∧ env.sequence ≤ deadline) ∧
      Paid host house s roundId recipient amount proof t := by
  simp only [executeClaim, bind_eq_ok, rejectIf_eq_ok, Prod.exists, Bool.not_eq_false] at h
  obtain ⟨_, _, token, root, hload, _, hfresh, _, hproven, hpay⟩ := h
  obtain ⟨hroot, hopen⟩ := loadRoundContext_ok hload
  exact ⟨hopen, hfresh, ⟨root, hroot, hproven⟩, token, payRound_ok hpay⟩

theorem Paid.roundRoots_eq (h : Paid host house s roundId recipient amount proof t) :
    t.roundRoots = s.roundRoots := by
  obtain ⟨_, rfl⟩ := h.after
  rfl

structure Rounds (host : Host) (deadline : ℕ) (now : ℕ) (s : State) : Prop where
  admin_isSome : s.admin.isSome
  deadline_eq : s.claimDeadline = some deadline
  unpaid : ∀ roundId recipient, (roundId, recipient) ∉ s.roundClaimed →
    paymentsOf roundId recipient s.transfers = []
  once : ∀ roundId recipient, (paymentsOf roundId recipient s.transfers).length ≤ 1
  unrooted : ∀ roundId, s.roundRoots.lookup roundId = none → ∀ root,
    ProvenBy host roundId root s.transfers
  /-- While claims are open the root is the one of all payments. -/
  rooted : now ≤ deadline → ∀ roundId root, s.roundRoots.lookup roundId = some root →
    ProvenBy host roundId root s.transfers
  proven : ∀ roundId, ∃ root, ProvenBy host roundId root s.transfers

variable {deadline now : ℕ}

theorem Rounds.later (hs : Rounds host deadline now s) {later : ℕ} (hle : now ≤ later) :
    Rounds host deadline later s :=
  { hs with rooted := fun hopen => hs.rooted (le_trans hle hopen) }

theorem Rounds.paid (hs : Rounds host deadline now s) (hopen : now ≤ deadline)
    (h : Paid host house s roundId recipient amount proof t) : Rounds host deadline now t := by
  obtain ⟨root, hroot, hverified⟩ := h.proven
  obtain ⟨token, rfl⟩ := h.after
  let x : Transfer Purpose := ⟨.round roundId proof, token, house, recipient, amount⟩
  have hall : ∀ other otherRoot, s.roundRoots.lookup other = some otherRoot →
      ProvenBy host other otherRoot (s.transfers ++ [x]) := by
    intro other otherRoot hother
    refine (hs.rooted hopen other otherRoot hother).snoc fun proof' hpurpose => ?_
    cases hpurpose
    rw [hroot] at hother
    cases hother
    exact hverified
  refine { hs with
    unpaid := fun r a hfree => ?_
    once := fun r a => ?_
    unrooted := fun other hnone otherRoot => ?_
    rooted := fun _ => hall
    proven := fun other => ?_ }
  · rw [Finmap.mem_insert, not_or] at hfree
    dsimp only
    rw [paymentsOf_snoc, hs.unpaid r a hfree.2, if_neg, List.nil_append]
    rintro ⟨hround, rfl⟩
    cases hround
    exact hfree.1 rfl
  · dsimp only
    rw [paymentsOf_snoc]
    split
    · next hpair =>
      obtain ⟨hround, rfl⟩ := hpair
      cases hround
      rw [hs.unpaid roundId recipient h.fresh]
      exact le_refl 1
    · rw [List.append_nil]
      exact hs.once r a
  · refine (hs.unrooted other hnone otherRoot).snoc fun proof' hpurpose => ?_
    cases hpurpose
    rw [hroot] at hnone
    cases hnone
  · cases hother : s.roundRoots.lookup other with
    | some otherRoot => exact ⟨otherRoot, hall other otherRoot hother⟩
    | none =>
      refine ⟨root, (hs.unrooted other hother root).snoc fun proof' hpurpose => ?_⟩
      cases hpurpose
      rw [hroot] at hother
      cases hother

theorem setRoot_ok {root : Node} (h : setRoot env roundId root s = .ok t)
    (hdeadline : s.claimDeadline = some deadline) :
    t = { s with roundRoots := s.roundRoots.insert roundId root } ∧
      (s.roundRoots.lookup roundId = none ∨ deadline < env.sequence) := by
  simp only [setRoot, bind_eq_ok, okOr_eq_ok] at h
  obtain ⟨_, _, _, _, h⟩ := h
  split at h
  · simp only [bind_eq_ok, okOr_eq_ok, rejectIf_eq_ok, pure_eq_ok, not_le] at h
    obtain ⟨other, hother, _, hlate, rfl⟩ := h
    rw [hdeadline] at hother
    cases hother
    exact ⟨rfl, .inr hlate⟩
  · next hnone =>
    rw [pure_eq_ok] at h
    exact ⟨h.symm, .inl (by simpa using hnone)⟩

theorem Rounds.setRoot {root : Node} (hs : Rounds host deadline env.sequence s)
    (h : setRoot env roundId root s = .ok t) : Rounds host deadline env.sequence t := by
  obtain ⟨rfl, hallowed⟩ := setRoot_ok h hs.deadline_eq
  refine { hs with
    unrooted := fun other hnone => ?_
    rooted := fun hopen other otherRoot hother => ?_ }
  · rw [lookup_insert_ite] at hnone
    split at hnone
    · cases hnone
    · exact hs.unrooted other hnone
  · rw [lookup_insert_ite] at hother
    split at hother
    · next hsame =>
      have hnone := hallowed.resolve_right (by omega)
      rw [hsame]
      exact hs.unrooted roundId hnone otherRoot
    · exact hs.rooted hopen other otherRoot hother

theorem claimOneLenient_ok {token : Address} {root : Node} {acc acc' : State × List Address}
    {c : RoundClaim} (hroot : acc.1.roundRoots.lookup roundId = some root)
    (h : claimOneLenient host house env roundId token root acc c = .ok acc') :
    acc' = acc ∨ Paid host house acc.1 roundId c.recipient c.amount c.proof acc'.1 := by
  unfold claimOneLenient at h
  dsimp only at h
  split at h
  · exact .inl (pure_eq_ok.mp h).symm
  · split at h
    · exact .inl (pure_eq_ok.mp h).symm
    · next hfresh =>
      split at h
      · exact .inl (pure_eq_ok.mp h).symm
      · next hverified =>
        simp only [bind_eq_ok, pure_eq_ok] at h
        obtain ⟨s₁, hpay, rfl⟩ := h
        exact .inr ⟨hfresh, ⟨root, hroot, by simpa using hverified⟩, token, payRound_ok hpay⟩

theorem claimAllLenient_rounds {token : Address} {root : Node} {claims : List RoundClaim}
    {acc acc' : State × List Address} (hs : Rounds host deadline now acc.1) (hopen : now ≤ deadline)
    (hroot : acc.1.roundRoots.lookup roundId = some root)
    (h : claims.foldlM (claimOneLenient host house env roundId token root) acc = .ok acc') :
    Rounds host deadline now acc'.1 ∧ acc'.1.roundRoots = acc.1.roundRoots := by
  induction claims generalizing acc with
  | nil =>
    rw [List.foldlM_nil, pure_eq_ok] at h
    rw [← h]
    exact ⟨hs, rfl⟩
  | cons c rest ih =>
    rw [List.foldlM_cons, bind_eq_ok] at h
    obtain ⟨acc₁, hone, h⟩ := h
    rcases claimOneLenient_ok hroot hone with rfl | hpaid
    · exact ih hs hroot h
    · obtain ⟨hrest, hroots⟩ :=
        ih (hs.paid hopen hpaid) (hpaid.roundRoots_eq.symm ▸ hroot) h
      exact ⟨hrest, hroots.trans hpaid.roundRoots_eq⟩

/-- A call that can pay: it is in time, and keeps all roots. -/
structure InTime (host : Host) (deadline now : ℕ) (s t : State) : Prop where
  before_end : now ≤ deadline
  rounds : Rounds host deadline now t
  roundRoots_eq : t.roundRoots = s.roundRoots

theorem claimBatchLenient_rounds {claims : List RoundClaim} {result : State × List Address}
    (hs : Rounds host deadline env.sequence s)
    (h : claimBatchLenient host house env roundId claims s = .ok result) :
    InTime host deadline env.sequence s result.1 := by
  simp only [claimBatchLenient, bind_eq_ok, Prod.exists] at h
  obtain ⟨token, root, hload, h⟩ := h
  obtain ⟨hroot, other, hother, hopen⟩ := loadRoundContext_ok hload
  rw [hs.deadline_eq] at hother
  cases hother
  obtain ⟨hrounds, hroots⟩ := claimAllLenient_rounds hs hopen hroot h
  exact ⟨hopen, hrounds, hroots⟩

theorem executeClaim_rounds (hs : Rounds host deadline env.sequence s)
    (h : executeClaim host house env roundId recipient amount proof s = .ok t) :
    InTime host deadline env.sequence s t := by
  obtain ⟨⟨other, hother, hopen⟩, hpaid⟩ := executeClaim_ok h
  rw [hs.deadline_eq] at hother
  cases hother
  exact ⟨hopen, hs.paid hopen hpaid, hpaid.roundRoots_eq⟩

theorem execRound_rounds {i : Invocation house RoundCall} (hs : Rounds host deadline i.sequence s)
    (h : execRound host i s = .ok t) :
    Rounds host deadline i.sequence t ∧ (t.transfers = s.transfers ∨ i.sequence ≤ deadline) ∧
      (i.sequence ≤ deadline → ∀ roundId root, s.roundRoots.lookup roundId = some root →
        t.roundRoots.lookup roundId = some root) := by
  have hpaying : ∀ {u}, InTime host deadline i.sequence s u →
      Rounds host deadline i.sequence u ∧ (u.transfers = s.transfers ∨ i.sequence ≤ deadline) ∧
        (i.sequence ≤ deadline → ∀ roundId root, s.roundRoots.lookup roundId = some root →
          u.roundRoots.lookup roundId = some root) := by
    intro u hu
    refine ⟨hu.rounds, .inr hu.before_end, fun _ roundId root hroot => ?_⟩
    rw [hu.roundRoots_eq]
    exact hroot
  unfold execRound at h
  cases hcall : i.call with
  | initializeAirdrop admin claimDeadline vesting =>
    simp only [hcall, initializeAirdrop, bind_eq_ok, rejectIf_eq_ok] at h
    obtain ⟨_, hnone, _⟩ := h
    exact absurd hs.admin_isSome hnone
  | setRoot roundId root =>
    rw [hcall] at h
    refine ⟨hs.setRoot h, ?_⟩
    obtain ⟨rfl, hallowed⟩ := setRoot_ok h hs.deadline_eq
    refine ⟨.inl rfl, fun hopen other otherRoot hother => ?_⟩
    have hnone := hallowed.resolve_right (by omega)
    rw [lookup_insert_ite, if_neg]
    · exact hother
    · rintro rfl
      rw [hnone] at hother
      cases hother
  | claim roundId recipient amount proof =>
    simp only [hcall, claim, bind_eq_ok] at h
    obtain ⟨_, _, h⟩ := h
    exact hpaying (executeClaim_rounds hs h)
  | claimFor roundId recipient amount proof signature =>
    simp only [hcall, claimFor, bind_eq_ok] at h
    obtain ⟨_, _, _, _, h⟩ := h
    exact hpaying (executeClaim_rounds hs h)
  | claimBatchLenient roundId claims =>
    rw [hcall] at h
    dsimp only at h
    cases hlenient : claimBatchLenient host house i.toEnv roundId claims s with
    | error e =>
      rw [hlenient] at h
      cases h
    | ok result =>
      rw [hlenient] at h
      cases h
      exact hpaying (claimBatchLenient_rounds hs hlenient)

end Steps

section Lenient
variable (host : Host) (house : Address) (env : Env) (roundId : ℕ)

/-- The errors of single claims that the batch passes over. -/
def AirdropError.Skipped : AirdropError → Bool
  | .invalidAmount => true
  | .alreadyClaimed => true
  | .invalidProof => true
  | _ => false

/-- `execute_claim`, where an error that the batch passes over does nothing. -/
def claimOrSkip (s : State) (c : RoundClaim) : Result AirdropError State :=
  match executeClaim host house env roundId c.recipient c.amount c.proof s with
  | .error (.error e) => if e.Skipped then .ok s else .error (.error e)
  | result => result

/-- The state that the host keeps. -/
def kept (s : State) : Result AirdropError State → State
  | .ok t => t
  | .error _ => s

variable {host house env roundId} {s : State}

theorem claimOneLenient_eq {token : Address} {root : Node} {claimed : List Address} {c : RoundClaim}
    (hload : loadRoundContext env roundId s = .ok (token, root)) :
    Prod.fst <$> claimOneLenient host house env roundId token root (s, claimed) c =
      claimOrSkip host house env roundId s c := by
  unfold claimOneLenient claimOrSkip executeClaim
  dsimp only
  by_cases hamount : c.amount ≤ 0
  · rw [if_pos hamount, rejectIf_pos hamount]
    rfl
  · rw [if_neg hamount, rejectIf_neg hamount, ok_bind, hload, ok_bind]
    dsimp only
    by_cases hclaimed : (roundId, c.recipient) ∈ s.roundClaimed
    · rw [if_pos hclaimed, rejectIf_pos hclaimed]
      rfl
    · rw [if_neg hclaimed, rejectIf_neg hclaimed, ok_bind]
      by_cases hproven :
          host.verifyProof (host.computeRoundLeaf c.recipient c.amount) c.proof root = false
      · rw [if_pos hproven, rejectIf_pos hproven]
        rfl
      · rw [if_neg hproven, rejectIf_neg hproven, ok_bind]
        cases hpay : payRound house env token roundId c.recipient c.amount c.proof s with
        | ok t => rfl
        | error e =>
          have htrap : e = .trap := payRound_error hpay
          rw [htrap]
          rfl

theorem claimAllLenient_eq {token : Address} {root : Node} {claims : List RoundClaim}
    {claimed : List Address} (hload : loadRoundContext env roundId s = .ok (token, root)) :
    Prod.fst <$> claims.foldlM (claimOneLenient host house env roundId token root) (s, claimed) =
      claims.foldlM (claimOrSkip host house env roundId) s := by
  induction claims generalizing s claimed with
  | nil => rfl
  | cons c rest ih =>
    have hhead : Prod.fst <$> claimOneLenient host house env roundId token root (s, claimed) c =
        claimOrSkip host house env roundId s c := claimOneLenient_eq hload
    rw [List.foldlM_cons, List.foldlM_cons, ← hhead]
    cases hone : claimOneLenient host house env roundId token root (s, claimed) c with
    | error e => rfl
    | ok acc =>
      obtain ⟨s₁, claimed₁⟩ := acc
      have hload₁ : loadRoundContext env roundId s₁ = .ok (token, root) := by
        obtain ⟨hroot, _⟩ := loadRoundContext_ok hload
        rcases claimOneLenient_ok hroot hone with heq | hpaid
        · cases heq
          exact hload
        · obtain ⟨_, rfl⟩ := hpaid.after
          exact hload
      exact ih hload₁

theorem loadRoundContext_error {e : Failure AirdropError}
    (h : loadRoundContext env roundId s = .error e) :
    ∃ code, e = .error code ∧ code.Skipped = false := by
  unfold loadRoundContext at h
  cases htoken : s.token with
  | none =>
    rw [htoken] at h
    exact ⟨.notInitialized, (Except.error.inj h).symm, rfl⟩
  | some token =>
    cases hroot : s.roundRoots.lookup roundId with
    | none =>
      rw [htoken, hroot] at h
      exact ⟨.rootNotSet, (Except.error.inj h).symm, rfl⟩
    | some root =>
      cases hdeadline : s.claimDeadline with
      | none =>
        rw [htoken, hroot, hdeadline] at h
        exact ⟨.notInitialized, (Except.error.inj h).symm, rfl⟩
      | some deadline =>
        simp only [htoken, hroot, hdeadline, okOr, ok_bind, rejectIf] at h
        split at h
        · exact ⟨.claimWindowClosed, (Except.error.inj h).symm, rfl⟩
        · cases h

theorem claimAll_closed {e : Failure AirdropError} {claims : List RoundClaim}
    (hload : loadRoundContext env roundId s = .error e) :
    kept s (claims.foldlM (claimOrSkip host house env roundId) s) = s := by
  obtain ⟨code, rfl, hcode⟩ := loadRoundContext_error hload
  induction claims with
  | nil => rfl
  | cons c rest ih =>
    rw [List.foldlM_cons]
    by_cases hamount : c.amount ≤ 0
    · have hskip : claimOrSkip host house env roundId s c = .ok s := by
        unfold claimOrSkip executeClaim
        rw [rejectIf_pos hamount]
        rfl
      rw [hskip, ok_bind]
      exact ih
    · have hfail : claimOrSkip host house env roundId s c = .error (.error code) := by
        have herror : executeClaim host house env roundId c.recipient c.amount c.proof s =
            .error (.error code) := by
          unfold executeClaim
          rw [rejectIf_neg hamount, ok_bind, hload]
          rfl
        unfold claimOrSkip
        rw [herror]
        simp only [hcode, Bool.false_eq_true, if_false]
      rw [hfail]
      rfl

theorem claimBatchLenient_eq (claims : List RoundClaim) :
    kept s (Prod.fst <$> claimBatchLenient host house env roundId claims s) =
      kept s (claims.foldlM (claimOrSkip host house env roundId) s) := by
  unfold claimBatchLenient
  cases hload : loadRoundContext env roundId s with
  | error e =>
    rw [claimAll_closed hload]
    rfl
  | ok loaded =>
    obtain ⟨token, root⟩ := loaded
    rw [ok_bind]
    dsimp only
    rw [claimAllLenient_eq hload]

end Lenient

theorem initializeAirdrop_rounds {host : Host} {admin : Address} {env : Env} {claimDeadline : ℕ}
    {vesting : Option VestingConfig} {token : Option Address} {s : State}
    (h : initializeAirdrop env admin claimDeadline vesting { State.empty with token := token } =
      .ok s) : Rounds host claimDeadline env.sequence s := by
  simp only [initializeAirdrop, bind_eq_ok, pure_eq_ok] at h
  obtain ⟨_, _, _, _, _, _, rfl⟩ := h
  have hnone : ∀ roundId root,
      ProvenBy host roundId root ([] : List (Transfer Purpose)) :=
    fun _ _ x hx => by cases hx
  exact ⟨rfl, rfl, fun _ _ _ => rfl, fun _ _ => Nat.zero_le 1, fun roundId _ => hnone roundId,
    fun _ roundId root _ => hnone roundId root, fun roundId => ⟨0, hnone roundId 0⟩⟩

/-- In every run at non-decreasing ledgers: each round pays each recipient at most once; nothing is
    paid after the deadline; a root that can still be claimed against stays; all payments of a round
    are proven against one root; and a lenient batch has the effect of its entries claimed one after
    the other, where invalid amounts, claimed entries and invalid proofs are passed over. -/
theorem rounds_paid_once (host : Host) (house admin : Address) (claimDeadline : ℕ)
    (vesting : Option VestingConfig) (token : Option Address) (i₀ : Invocation house RoundCall)
    (s : State) (hcall : i₀.call = .initializeAirdrop admin claimDeadline vesting)
    (hinit : execRound host i₀ { State.empty with token := token } = .ok s)
    (is : List (Invocation house RoundCall))
    (htime : (i₀ :: is).Pairwise (fun i j => i.sequence ≤ j.sequence)) :
    (∀ roundId recipient,
      (paymentsOf roundId recipient (runRounds host s is).transfers).length ≤ 1) ∧
    (∀ e ∈ history (execRound host) s is,
      (e.after.transfers = e.before.transfers ∨ e.invocation.sequence ≤ claimDeadline) ∧
      (e.invocation.sequence ≤ claimDeadline → ∀ roundId root,
        e.before.roundRoots.lookup roundId = some root →
        e.after.roundRoots.lookup roundId = some root)) ∧
    (∀ roundId, ∃ root, ProvenBy host roundId root (runRounds host s is).transfers) ∧
    ∀ (env : Env) (roundId : ℕ) (claims : List RoundClaim),
      kept (runRounds host s is)
          (Prod.fst <$> claimBatchLenient host house env roundId claims (runRounds host s is)) =
        kept (runRounds host s is)
          (claims.foldlM (claimOrSkip host house env roundId) (runRounds host s is)) := by
  have hstart : Rounds host claimDeadline i₀.sequence s := by
    unfold execRound at hinit
    rw [hcall] at hinit
    exact initializeAirdrop_rounds hinit
  obtain ⟨hfirst, htime⟩ := List.pairwise_cons.mp htime
  have halong := along_true (execRound host) s is
  let Inv : ℕ → List (Entry State (Invocation house RoundCall)) → State → Prop :=
    fun now _ s => Rounds host claimDeadline now s
  have hlater : ∀ now later past s, now ≤ later → Inv now past s → Inv later past s :=
    fun _ _ _ _ hle hs => hs.later hle
  have hstep : ∀ past s (i : Invocation house RoundCall) t, Inv i.sequence past s → True →
      execRound host i s = .ok t → Inv i.sequence (past ++ [⟨s, i, t⟩]) t :=
    fun _ _ _ _ hs _ hok => (execRound_rounds hs hok).1
  obtain ⟨now, hrun⟩ := history_invariant_timed (fun i : Invocation house RoundCall => i.sequence)
    hlater hstep hstart halong hfirst htime
  change Rounds host claimDeadline now (runRounds host s is) at hrun
  refine ⟨hrun.once, fun e he => ?_, hrun.proven, fun env roundId claims => claimBatchLenient_eq claims⟩
  obtain ⟨past, later, hsplit⟩ := List.append_of_mem he
  obtain ⟨hbefore, _, hok⟩ := history_split_timed
    (fun i : Invocation house RoundCall => i.sequence) hlater hstep hstart halong hfirst htime hsplit
  exact (execRound_rounds hbefore hok).2

/-- A call on a contract that holds 1000. -/
def demoRound (sequence : ℕ) (call : RoundCall) : Invocation demoHouse RoundCall :=
  { demoCall sequence [] call with tokens := honestReplies fun _ _ => 1000 }

/-- Alice claims in a batch that lists her twice, and once more by herself. -/
def demoRounds : List (Invocation demoHouse RoundCall) :=
  [demoRound 2 (.setRoot 1 (BitVec.ofInt 256 100)),
    demoRound 3 (.claimBatchLenient 1 [⟨demoAlice, 100, []⟩, ⟨demoAlice, 100, []⟩]),
    demoRound 4 (.claim 1 demoAlice 100 [])]

theorem rounds_paid_once_demo :
    let start := runRounds demoHost { State.empty with token := some demoToken }
      [demoRound 1 (.initializeAirdrop demoAdmin 20 none)]
    paymentsOf 1 demoAlice (runRounds demoHost start demoRounds).transfers =
        [⟨.round 1 [], demoToken, demoHouse, demoAlice, 100⟩] ∧
      (paymentsOf 1 demoAlice (runRounds demoHost start demoRounds).transfers).length ≤ 1 ∧
      ∃ root, ProvenBy demoHost 1 root (runRounds demoHost start demoRounds).transfers := by
  intro start
  have hrounds := rounds_paid_once demoHost demoHouse demoAdmin 20 none (some demoToken)
    (demoRound 1 (.initializeAirdrop demoAdmin 20 none)) start rfl rfl demoRounds (by decide)
  exact ⟨by decide +kernel, hrounds.1 1 demoAlice, hrounds.2.2.1 1⟩

end SorobanKit.Airdrop
