import Mathlib.Logic.Equiv.List
import SorobanKit.DaoMoves

set_option autoImplicit false

/-!
# The index of payload hashes

Creating a proposal enters its hash in `ActivePayloadHash`, and no call takes it out again. So the
index holds the hashes of all proposals there ever were, and not of the active ones.
-/
namespace SorobanKit.Dao
open HostBalances HostInteger HostInvocation HostRuns HostTransfers

/-- What `compute_payload_hash` is applied to. -/
structure Payload where
  title : String
  description : String
  actionTarget : Option Address
  actionFunction : Option Symbol
  actionArgs : Option (List Val)
  deriving DecidableEq

def Deployment.hash (dao : Deployment) (x : Payload) : Hash :=
  dao.computePayloadHash x.title x.description x.actionTarget x.actionFunction x.actionArgs

def Proposal.payload (p : Proposal) : Payload :=
  ⟨p.title, p.description, p.actionTarget, p.actionFunction, p.actionArgs⟩

def Proposal.Live (p : Proposal) : Prop := p.state = .active ∨ p.state = .queued

/-- The proposer and the payload of a call that proposes. -/
def Call.proposed : Call → Option (Address × Payload)
  | .createProposal proposer title description actionTarget actionFunction actionArgs =>
    some (proposer, ⟨title, description, actionTarget, actionFunction, actionArgs⟩)
  | .createProposalWithConfig proposer title description actionTarget actionFunction actionArgs _ _ _ =>
    some (proposer, ⟨title, description, actionTarget, actionFunction, actionArgs⟩)
  | _ => none

/-- The index holds the hashes of the stored proposals, each of one proposal. -/
structure Indexed (dao : Deployment) (s : State) : Prop where
  hash_eq : ∀ pid p, s.proposals.lookup pid = some p → p.payloadHash = dao.hash p.payload
  mem_iff : ∀ hash, hash ∈ s.activePayloadHash ↔
    ∃ pid p, s.proposals.lookup pid = some p ∧ p.payloadHash = hash
  unique : ∀ pid pid' p p', s.proposals.lookup pid = some p → s.proposals.lookup pid' = some p' →
    p.payloadHash = p'.payloadHash → pid = pid'

section Steps
variable {dao : Deployment} {c : Config} {i : Invocation dao} {env : Env} {s t : State}
  {proposer : Address} {title description : String} {actionTarget : Option Address}
  {actionFunction : Option Symbol} {actionArgs : Option (List Val)} {votingType : VotingType}
  {tier : ProposalTier} {choices : List Symbol}

/-- A new proposal is stored under the next number, and its hash is entered, which was not in the
    index before. -/
structure Enters (dao : Deployment) (s t : State) (pid : ℕ) (p : Proposal) : Prop where
  fresh : s.proposals.lookup pid = none
  hash_eq : p.payloadHash = dao.hash p.payload
  absent : p.payloadHash ∉ s.activePayloadHash
  proposals_eq : t.proposals = s.proposals.insert pid p
  index_eq : t.activePayloadHash = s.activePayloadHash.insert p.payloadHash pid

theorem createProposalWithConfig_enters (hs : Ready c s)
    (h : createProposalWithConfig dao env proposer title description actionTarget actionFunction
      actionArgs votingType tier choices s = .ok t) : ∃ pid p, Enters dao s t pid p := by
  obtain ⟨count, hcount, _⟩ := hs.counted
  simp only [createProposalWithConfig, getInstance, bind_eq_ok, okOr_eq_ok, requireAuth_eq_ok,
    rejectIf_eq_ok, hs.token_eq, Option.some.injEq, hcount, Option.getD_some] at h
  obtain ⟨_, _, _, _, _, rfl, _, _, _, habsent, s₁, hbond, _, _, _, _, _, _, h⟩ := h
  have hs₁ := escrowBond_ok hbond
  subst hs₁
  rw [pure_eq_ok] at h
  subst h
  exact ⟨count, _, hs.fresh hcount, rfl, habsent, rfl, rfl⟩

theorem escrowBond_not_duplicate {token : Address} {balance : ℤ} {pid : ℕ} :
    escrowBond dao env proposer token balance pid s ≠ .error (.error .duplicateProposal) := by
  intro h
  unfold escrowBond callTransfer recordTransfer trapUnless at h
  dsimp only at h
  split at h
  · simp only [bind_eq_error, rejectIf_eq_error] at h
    rcases h with ⟨-, h⟩ | ⟨-, -, h | ⟨-, -, h⟩⟩
    · cases h
    · split at h <;> cases h
    · cases h
  · cases h

/-- Once its proposer has signed and holds tokens, a proposal is a duplicate exactly when its hash is
    in the index. -/
theorem createProposalWithConfig_duplicate_iff (hs : Ready c s) (hauth : proposer ∈ env.auths)
    (hbalance : 0 < env.tokens.balance c.token proposer) :
    createProposalWithConfig dao env proposer title description actionTarget actionFunction actionArgs
        votingType tier choices s = .error (.error .duplicateProposal) ↔
      dao.computePayloadHash title description actionTarget actionFunction actionArgs ∈
        s.activePayloadHash := by
  by_cases hmem : dao.computePayloadHash title description actionTarget actionFunction actionArgs ∈
      s.activePayloadHash
  · simp only [createProposalWithConfig, requireInitialized, getInstance, requireAuth, trapUnless, okOr,
      rejectIf, hs.initialized_eq, hs.token_eq, hauth, not_le.mpr hbalance, hmem, if_true, if_false,
      iff_true, reduceCtorEq, ok_bind]
    rfl
  · simp only [hmem, iff_false]
    intro h
    simp [createProposalWithConfig, requireInitialized, getInstance, bind_eq_error, okOr_eq_error,
      unwrap_eq_error, rejectIf_eq_error, requireAuth_eq_error, escrowBond_not_duplicate,
      hs.initialized_eq, hs.token_eq, hmem] at h
    obtain ⟨-, -, _, -, _, -, -, h⟩ := h
    cases hcount : checkedAddU32 (s.proposalCount.getD 0) 1 with
    | none =>
      rw [hcount] at h
      cases h
    | some count =>
      rw [hcount] at h
      cases h

/-- What a call does to the proposals and the index. -/
inductive Filing (dao : Deployment) (s t : State) : Prop where
  | entered (pid : ℕ) (p : Proposal) (h : Enters dao s t pid p)
  | rewritten (pid : ℕ) (p q : Proposal) (hp : s.proposals.lookup pid = some p)
      (hpayload : q.payload = p.payload) (hhash : q.payloadHash = p.payloadHash)
      (hproposals : t.proposals = s.proposals.insert pid q)
      (hindex : t.activePayloadHash = s.activePayloadHash)
  | untouched (hproposals : t.proposals = s.proposals)
      (hindex : t.activePayloadHash = s.activePayloadHash)

theorem withVotes_payload (p : Proposal) (support : Bool) (weight : ℤ) :
    (p.withVotes support weight).payload = p.payload ∧
      (p.withVotes support weight).payloadHash = p.payloadHash := by
  cases support <;> exact ⟨rfl, rfl⟩

theorem exec_filing (hs : Ready c s) (h : exec i s = .ok t) : Filing dao s t := by
  cases exec_move hs h with
  | created p hcall =>
    unfold exec at h
    cases hc : i.call with
    | createProposal =>
      rw [hc] at h
      obtain ⟨pid, p, henters⟩ := createProposalWithConfig_enters hs h
      exact .entered pid p henters
    | createProposalWithConfig =>
      rw [hc] at h
      obtain ⟨pid, p, henters⟩ := createProposalWithConfig_enters hs h
      exact .entered pid p henters
    | _ =>
      rw [hc] at hcall
      exact hcall.elim
  | voted voter pid p own weight support _ hopen _ _ h =>
    obtain ⟨hpayload, hhash⟩ := withVotes_payload p support weight
    have hproposals := congrArg State.proposals h
    have hindex := congrArg State.activePayloadHash h
    exact .rewritten pid p _ hopen.lookup_eq hpayload hhash hproposals hindex
  | locked _ _ _ _ _ _ _ _ h | unlocked _ _ _ _ _ _ _ _ h | arranged _ h =>
    have hproposals := congrArg State.proposals h
    have hindex := congrArg State.activePayloadHash h
    exact .untouched hproposals hindex
  | queued pid p _ hp _ _ _ h | executed pid p hp _ h | cancelled pid p _ _ hp _ _ h
    | dropped pid p hp _ h =>
    have hproposals := congrArg State.proposals h
    have hindex := congrArg State.activePayloadHash h
    refine .rewritten pid p _ hp ?_ ?_ hproposals hindex
    · rfl
    · rfl

theorem Indexed.enter {pid : ℕ} {p : Proposal} (hx : Indexed dao s) (h : Enters dao s t pid p) :
    Indexed dao t := by
  have hlookup : ∀ id, t.proposals.lookup id = if id = pid then some p else s.proposals.lookup id := by
    intro id
    rw [h.proposals_eq, lookup_insert_ite]
  -- no stored proposal has the new hash
  have hnew : ∀ id q, s.proposals.lookup id = some q → q.payloadHash ≠ p.payloadHash := by
    intro id q hq heq
    exact h.absent ((hx.mem_iff _).mpr ⟨id, q, hq, heq⟩)
  refine ⟨fun id q hq => ?_, fun hash => ?_, fun id id' q q' hq hq' heq => ?_⟩
  · rw [hlookup] at hq
    split at hq
    · cases hq
      exact h.hash_eq
    · exact hx.hash_eq id q hq
  · rw [h.index_eq, Finmap.mem_insert, hx.mem_iff]
    constructor
    · rintro (rfl | ⟨id, q, hq, hhash⟩)
      · exact ⟨pid, p, by rw [hlookup, if_pos rfl], rfl⟩
      · refine ⟨id, q, ?_, hhash⟩
        rw [hlookup, if_neg, hq]
        rintro rfl
        rw [h.fresh] at hq
        cases hq
    · rintro ⟨id, q, hq, hhash⟩
      rw [hlookup] at hq
      split at hq
      · cases hq
        exact .inl hhash.symm
      · exact .inr ⟨id, q, hq, hhash⟩
  · rw [hlookup] at hq hq'
    split at hq
    · next hid =>
      cases hq
      split at hq'
      · next hid' => rw [hid, hid']
      · exact absurd heq.symm (hnew id' q' hq')
    · split at hq'
      · cases hq'
        exact absurd heq (hnew id q hq)
      · exact hx.unique id id' q q' hq hq' heq

theorem Indexed.rewrite {pid : ℕ} {p q : Proposal} (hx : Indexed dao s)
    (hp : s.proposals.lookup pid = some p) (hpayload : q.payload = p.payload)
    (hhash : q.payloadHash = p.payloadHash) (hproposals : t.proposals = s.proposals.insert pid q)
    (hindex : t.activePayloadHash = s.activePayloadHash) : Indexed dao t := by
  -- every number has a proposal of the same payload and hash before and after
  have hback : ∀ id r, t.proposals.lookup id = some r →
      ∃ r', s.proposals.lookup id = some r' ∧ r.payload = r'.payload ∧
        r.payloadHash = r'.payloadHash := by
    intro id r hr
    rw [hproposals, lookup_insert_ite] at hr
    split at hr
    · next hid =>
      cases hr
      exact ⟨p, by rw [hid, hp], hpayload, hhash⟩
    · exact ⟨r, hr, rfl, rfl⟩
  have hforth : ∀ id r, s.proposals.lookup id = some r →
      ∃ r', t.proposals.lookup id = some r' ∧ r'.payloadHash = r.payloadHash := by
    intro id r hr
    rw [hproposals, lookup_insert_ite]
    split
    · next hid =>
      rw [hid, hp] at hr
      cases hr
      exact ⟨q, rfl, hhash⟩
    · exact ⟨r, hr, rfl⟩
  refine ⟨fun id r hr => ?_, fun hash => ?_, fun id id' r r' hr hr' heq => ?_⟩
  · obtain ⟨r', hr', hsame, hsame'⟩ := hback id r hr
    rw [hsame', hsame]
    exact hx.hash_eq id r' hr'
  · rw [hindex, hx.mem_iff]
    constructor
    · rintro ⟨id, r, hr, rfl⟩
      obtain ⟨r', hr', hsame⟩ := hforth id r hr
      exact ⟨id, r', hr', hsame⟩
    · rintro ⟨id, r, hr, rfl⟩
      obtain ⟨r', hr', -, hsame⟩ := hback id r hr
      exact ⟨id, r', hr', hsame.symm⟩
  · obtain ⟨u, hu, -, hsame⟩ := hback id r hr
    obtain ⟨u', hu', -, hsame'⟩ := hback id' r' hr'
    exact hx.unique id id' u u' hu hu' (by rw [← hsame, ← hsame', heq])

theorem exec_indexed (hs : Ready c s) (hx : Indexed dao s) (h : exec i s = .ok t) : Indexed dao t := by
  cases exec_filing hs h with
  | entered pid p henters => exact hx.enter henters
  | rewritten pid p q hp hpayload hhash hproposals hindex =>
    exact hx.rewrite hp hpayload hhash hproposals hindex
  | untouched hproposals hindex =>
    refine ⟨fun id p hp => ?_, fun hash => ?_, fun id id' p p' hp hp' => ?_⟩
    · rw [hproposals] at hp
      exact hx.hash_eq id p hp
    · rw [hindex, hproposals]
      exact hx.mem_iff hash
    · rw [hproposals] at hp hp'
      exact hx.unique id id' p p' hp hp'

theorem exec_duplicate_iff (hs : Ready c s) (hx : Indexed dao s)
    (hinj : ∀ x y, dao.hash x = dao.hash y → x = y) {payload : Payload}
    (hcall : i.call.proposed = some (proposer, payload)) (hauth : proposer ∈ i.auths)
    (hbalance : 0 < i.tokens.balance c.token proposer) :
    exec i s = .error (.error .duplicateProposal) ↔
      ∃ pid p, s.proposals.lookup pid = some p ∧ p.payload = payload := by
  have hindex : exec i s = .error (.error .duplicateProposal) ↔
      dao.hash payload ∈ s.activePayloadHash := by
    unfold exec
    cases hc : i.call with
    | createProposal =>
      rw [hc] at hcall
      cases hcall
      exact createProposalWithConfig_duplicate_iff hs hauth hbalance
    | createProposalWithConfig =>
      rw [hc] at hcall
      cases hcall
      exact createProposalWithConfig_duplicate_iff hs hauth hbalance
    | _ =>
      rw [hc] at hcall
      cases hcall
  rw [hindex, hx.mem_iff]
  constructor
  · rintro ⟨pid, p, hp, hhash⟩
    rw [hx.hash_eq pid p hp] at hhash
    exact ⟨pid, p, hp, hinj _ _ hhash⟩
  · rintro ⟨pid, p, hp, rfl⟩
    exact ⟨pid, p, hp, hx.hash_eq pid p hp⟩

theorem Indexed.unique_payload (hx : Indexed dao s) {pid pid' : ℕ} {p p' : Proposal}
    (hp : s.proposals.lookup pid = some p) (hp' : s.proposals.lookup pid' = some p')
    (hsame : p.payload = p'.payload) : p = p' := by
  have hid := hx.unique pid pid' p p' hp hp'
    (by rw [hx.hash_eq pid p hp, hx.hash_eq pid' p' hp', hsame])
  subst hid
  rw [hp] at hp'
  exact Option.some.inj hp'

end Steps

theorem initializeDao_indexed {dao : Deployment} {env : Env} {admin token : Address}
    {votingPeriod : ℕ} {quorum proposalBond : ℤ}
    {minQuorumBps maxQuorumBps quorumBps executionDelay : ℕ} {s : State}
    (h : initializeDao env admin token votingPeriod quorum proposalBond minQuorumBps maxQuorumBps
      quorumBps executionDelay State.empty = .ok s) : Indexed dao s := by
  obtain ⟨-, -, hproposals, -⟩ := initializeDao_ready h
  have hnone : ∀ pid p, s.proposals.lookup pid ≠ some p := by
    intro pid p hp
    rw [hproposals] at hp
    cases hp
  refine ⟨fun pid p hp => absurd hp (hnone pid p), fun hash => ?_,
    fun pid pid' p p' hp => absurd hp (hnone pid p)⟩
  rw [(initializeDao_empty h).2]
  constructor
  · intro hmem
    cases Finmap.notMem_empty hmem
  · rintro ⟨pid, p, hp, -⟩
    exact absurd hp (hnone pid p)

/-- In every run, and for any hash that tells payloads apart: an authorized proposal by a holder of
    tokens is rejected exactly while a proposal with its payload is active or queued, if and only if
    no proposal with its payload has ended. -/
theorem duplicate_rejection_iff (dao : Deployment) (hinj : ∀ x y, dao.hash x = dao.hash y → x = y)
    (admin token : Address) (votingPeriod : ℕ) (quorum proposalBond : ℤ)
    (minQuorumBps maxQuorumBps quorumBps executionDelay : ℕ) (i₀ : Invocation dao) (s : State)
    (hcall : i₀.call = .initializeDao admin token votingPeriod quorum proposalBond minQuorumBps
      maxQuorumBps quorumBps executionDelay)
    (hinit : exec i₀ State.empty = .ok s) (is : List (Invocation dao)) :
    ∀ x ∈ attempts exec s is, ∀ proposer payload,
      x.invocation.call.proposed = some (proposer, payload) → proposer ∈ x.invocation.auths →
      0 < x.invocation.tokens.balance token proposer →
      ((x.outcome = .error (.error .duplicateProposal) ↔
          ∃ pid p, x.before.proposals.lookup pid = some p ∧ p.payload = payload ∧ p.Live) ↔
        ∀ pid p, x.before.proposals.lookup pid = some p → p.payload = payload → p.Live) := by
  intro x hx proposer payload hproposed hauth hbalance
  have hs : Ready ⟨admin, token, quorum, proposalBond, quorumBps, executionDelay⟩ s ∧
      Indexed dao s := by
    unfold exec at hinit
    rw [hcall] at hinit
    exact ⟨(initializeDao_ready hinit).2.1, initializeDao_indexed hinit⟩
  obtain ⟨⟨hready, hindexed⟩, houtcome⟩ := attempts_mem
    (I := fun s => Ready ⟨admin, token, quorum, proposalBond, quorumBps, executionDelay⟩ s ∧
      Indexed dao s)
    (fun s i t hs h => ⟨exec_ready hs.1 h, exec_indexed hs.1 hs.2 h⟩) hs hx
  rw [houtcome, exec_duplicate_iff hready hindexed hinj hproposed hauth hbalance]
  constructor
  · intro hiff pid p hp hsame
    obtain ⟨pid', p', hp', hsame', hlive⟩ := hiff.mp ⟨pid, p, hp, hsame⟩
    rw [hindexed.unique_payload hp hp' (hsame.trans hsame'.symm)]
    exact hlive
  · intro hall
    constructor
    · rintro ⟨pid, p, hp, hsame⟩
      exact ⟨pid, p, hp, hsame, hall pid p hp hsame⟩
    · rintro ⟨pid, p, hp, hsame, -⟩
      exact ⟨pid, p, hp, hsame⟩

def codes (x : String) : List ℕ := x.toList.map Char.toNat

theorem codes_injective {x y : String} (h : codes x = codes y) : x = y := by
  apply String.toList_inj.mp
  exact List.map_injective_iff.mpr (fun a b hab => Char.ext (UInt32.toNat_inj.mp hab)) h

/-- The payload as one number. -/
def encodePayload (x : Payload) : ℕ :=
  Encodable.encode (codes x.title, codes x.description, x.actionTarget.map Address.id,
    x.actionFunction.map codes, x.actionArgs)

def encodedDao : Deployment :=
  { demoDao with computePayloadHash := fun title description actionTarget actionFunction actionArgs =>
      encodePayload ⟨title, description, actionTarget, actionFunction, actionArgs⟩ }

theorem encodedDao_injective (x y : Payload) (h : encodedDao.hash x = encodedDao.hash y) : x = y := by
  have hparts := Encodable.encode_injective h
  simp only [Prod.mk.injEq] at hparts
  obtain ⟨htitle, hdescription, htarget, hfunction, hargs⟩ := hparts
  have hid : Function.Injective Address.id := by
    rintro ⟨a⟩ ⟨b⟩ hab
    exact congrArg Address.mk hab
  cases x
  cases y
  simp only [Payload.mk.injEq]
  exact ⟨codes_injective htitle, codes_injective hdescription, Option.map_injective hid htarget,
    Option.map_injective (fun _ _ => codes_injective) hfunction, hargs⟩

def encodedCall (sequence : ℕ) (call : Call) : Invocation encodedDao :=
  { toEnv := (demoCall sequence call).toEnv, call := call, outside := (demoCall sequence call).outside }

/-- The DAO after `initialize`, without bonds. -/
def encodedStart : State :=
  run State.empty
    [encodedCall 1 (.initializeDao demoAdmin demoToken 10 50 0 0 0 0 5)]

def encodedCreate (sequence : ℕ) : Invocation encodedDao :=
  encodedCall sequence
    (.createProposalWithConfig demoCarol "a" "b" none none none .linear .standard [])

/-- A second proposal with the payload of an active one. -/
theorem duplicate_rejection_iff_demo :
    exec (encodedCreate 3) (run encodedStart [encodedCreate 2]) =
      .error (.error .duplicateProposal) := by
  have hiff := duplicate_rejection_iff encodedDao encodedDao_injective demoAdmin demoToken 10 50 0 0 0
    0 5 (encodedCall 1 (.initializeDao demoAdmin demoToken 10 50 0 0 0 0 5)) encodedStart rfl rfl
    [encodedCreate 2, encodedCreate 3] _ (List.mem_cons_of_mem _ List.mem_cons_self) demoCarol
    ⟨"a", "b", none, none, none⟩ rfl (by decide) (by decide)
  obtain ⟨p, hp, hpayload, hlive⟩ : ∃ p,
      (run encodedStart [encodedCreate 2]).proposals = (∅ : Finmap fun _ : ℕ => Proposal).insert 0 p ∧
        p.payload = ⟨"a", "b", none, none, none⟩ ∧ p.Live := ⟨_, rfl, rfl, .inl rfl⟩
  have hlookup : ∀ pid q, (run encodedStart [encodedCreate 2]).proposals.lookup pid = some q →
      q.Live := by
    intro pid q hq
    rw [hp, lookup_insert_ite] at hq
    split at hq
    · cases hq
      exact hlive
    · cases hq
  refine (hiff.mpr fun pid q hq _ => hlookup pid q hq).mpr ⟨0, p, ?_, hpayload, hlive⟩
  change (run encodedStart [encodedCreate 2]).proposals.lookup 0 = some p
  rw [hp, Finmap.lookup_insert]

/-- The proposal was cancelled by the admin, there is no other one, and its payload is still refused. -/
theorem cancelled_payload_refused :
    let s := run encodedStart [encodedCreate 2, encodedCall 3 (.adminCancelProposal 0)]
    s.proposals.keys = {0} ∧ (s.proposals.lookup 0).map Proposal.state = some .cancelled ∧
      exec (encodedCreate 4) s = .error (.error .duplicateProposal) := by
  refine ⟨?_, ?_, ?_⟩
  · decide +kernel
  · decide +kernel
  · rfl

end SorobanKit.Dao
