import SorobanKit.DaoLifecycle
import SorobanKit.TokenGovernor

set_option autoImplicit false

/-!
# The DAO in the office of the token's admin

The payload of an executed proposal is a call that the DAO signs, so where the DAO is the token's
admin, proposals decide what the admin decides. `jointly` runs both contracts next to each other: what
an invocation of the DAO transfers and calls is done in the token's state, whatever token contracts
were asked meanwhile and replied, and everybody else calls the token without the DAO's signature.
-/
namespace SorobanKit.Dao
open HostBalances HostInvocation HostRuns HostTransfers

/-- The DAO, the token whose admin it is, and how the token reads the payloads. -/
structure Setting where
  dao : Deployment
  token : Token.Deployment
  decode : Dispatch → Option Token.Call

/-- Why the payload of proposal `pid` is called: the vote was won, as the queue demands it, and the
    delay is over, or the security council signed. -/
inductive Mandate {dao : Deployment} (c : Config) (i : Invocation dao) (s : State) (pid : ℕ)
    (p : Proposal) : Prop where
  | vote (hcall : i.call = .executeProposal pid) (hpassed : Passed c p)
      (hlate : p.deadline + c.executionDelay ≤ i.sequence)
  | council (council : Address) (hcall : i.call = .emergencyExecuteProposal council pid)
      (hcouncil : s.securityCouncil = some council) (hauth : council ∈ i.auths)

/-- Proposals in the queue passed the vote, and wait for the delay the DAO was set up with. -/
def QueuedPassed (c : Config) (s : State) : Prop :=
  ∀ pid p, s.proposals.lookup pid = some p → p.state = .queued →
    Passed c p ∧ p.executionEta = p.deadline + c.executionDelay

/-- The proposal was executed. -/
def Executed (s : State) (pid : ℕ) : Prop :=
  ∃ p, s.proposals.lookup pid = some p ∧ p.state = .executed

section Steps
variable {dao : Deployment} {c : Config} {i : Invocation dao} {s t : State} {pid : ℕ}

theorem exec_queuedPassed (hs : Ready c s) (hqueued : QueuedPassed c s) (h : exec i s = .ok t) :
    QueuedPassed c t := by
  intro pid q hq hstate
  cases exec_change hs pid h with
  | untouched hcall h =>
    rw [h.lookup_eq] at hq
    exact hqueued pid q hq hstate
  | created p hcall hnone hactive hyes hno hsupply h =>
    rw [h.lookup_eq] at hq
    cases hq
    rw [hactive] at hstate
    cases hstate
  | voted voter p own weight support hcall hp hactive hown hweight h =>
    rw [h.lookup_eq] at hq
    cases hq
    rw [withVotes_state, hactive] at hstate
    cases hstate
  | queued p hcall hp hactive hlate hpassed h =>
    rw [h.lookup_eq] at hq
    cases hq
    exact ⟨⟨hpassed.majority, hpassed.quorum, hpassed.participation⟩, rfl⟩
  | executed p hp hcall h | cancelled p purpose target hp hactive hcall h | dropped p hp hcall h =>
    rw [h.lookup_eq] at hq
    cases hq
    cases hstate

theorem exec_executed (hs : Ready c s) (hexecuted : Executed s pid) (h : exec i s = .ok t) :
    Executed t pid := by
  obtain ⟨q, hq, hstate⟩ := hexecuted
  have hfirst : ∀ {p : Proposal}, s.proposals.lookup pid = some p → p.state = .executed := by
    intro p hp
    rw [hq] at hp
    cases hp
    exact hstate
  have hclosed : ∀ {p : Proposal} {state : ProposalState}, s.proposals.lookup pid = some p →
      p.state = state → state = .executed := fun hp hp' => hp'.symm.trans (hfirst hp)
  cases exec_change hs pid h with
  | untouched hcall h => exact ⟨q, h.lookup_eq.trans hq, hstate⟩
  | created p hcall hnone hactive hyes hno hsupply h =>
    rw [hnone] at hq
    cases hq
  | voted voter p own weight support hcall hp hactive hown hweight h => cases hclosed hp hactive
  | queued p hcall hp hactive hlate hpassed h => cases hclosed hp hactive
  | executed p hp hcall h => exact ⟨_, h.lookup_eq, rfl⟩
  | cancelled p purpose target hp hactive hcall h => cases hclosed hp hactive
  | dropped p hp hcall h =>
    rcases hcall with ⟨_, hqueued⟩ | ⟨_, hactive⟩
    · cases hclosed hp hqueued
    · cases hclosed hp hactive

theorem exec_mandate (hs : Ready c s) (hqueued : QueuedPassed c s) (h : exec i s = .ok t) :
    t.dispatched = s.dispatched ∨ ∃ pid p, s.proposals.lookup pid = some p ∧
      (p.state = .active ∨ p.state = .queued) ∧ Mandate c i s pid p ∧ Executed t pid ∧
      t.dispatched = s.dispatched ++ actionOf pid p := by
  cases exec_move hs h with
  | executed pid p hp hcall h =>
    have hexecuted : Executed t pid := by
      refine ⟨{ p with state := .executed }, ?_, rfl⟩
      rw [h]
      exact Finmap.lookup_insert _
    refine .inr ⟨pid, p, hp, ?_, ?_, hexecuted, by rw [h]⟩
    · rcases hcall with ⟨_, hstate, _⟩ | ⟨_, _, _, _, hstate⟩
      · exact .inr hstate
      · exact hstate
    · rcases hcall with ⟨hcall, hstate, heta⟩ | ⟨council, hcall, hcouncil, hauth, _⟩
      · obtain ⟨hpassed, hdelay⟩ := hqueued pid p hp hstate
        rw [hdelay] at heta
        exact .vote hcall hpassed heta
      · exact .council council hcall hcouncil hauth
  | created p hcall hauth hcount hstate hyes hno hbond hsupply h => rw [h]; exact .inl rfl
  | voted voter pid p own weight support hauth hopen hown hweight h => rw [h]; exact .inl rfl
  | locked voter pid p own hcall hauth hopen hown h => rw [h]; exact .inl rfl
  | unlocked voter pid p amount hcall hp hlate hlock h => rw [h]; exact .inl rfl
  | arranged hcall h => rw [h]; exact .inl rfl
  | queued pid p hcall hp hstate hlate hpassed h => rw [h]; exact .inl rfl
  | cancelled pid p purpose target hp hstate hcall h => rw [h]; exact .inl rfl
  | dropped pid p hp hcall h => rw [h]; exact .inl rfl

end Steps

abbrev Joint := State × Token.State

inductive Act (x : Setting) where
  | dao (i : Invocation x.dao)
  | token (j : Token.Invocation)

section Joint
variable (x : Setting)

/-- The DAO signs for what it calls. -/
def Setting.signed (ctx : Context) : Context := { ctx with auths := x.dao.house :: ctx.auths }

def Setting.moneyCalls (log : List (Transfer Purpose)) : List Token.Call :=
  (log.filter fun m => m.token = x.token.contractAddress).map
    fun m => .transfer m.source m.target m.amount

/-- What the step from `s` to `t` calls on the token: bonds and locks move before a payload is called. -/
def Setting.stepCalls (s t : State) : Option (List Token.Call) :=
  (Token.readAll x.token Dispatch.target x.decode (t.dispatched.drop s.dispatched.length)).map
    fun ks => x.moneyCalls (t.transfers.drop s.transfers.length) ++ ks

def Setting.jointly : Act x → Joint → Except Unit Joint
  | .dao i, (s, b) =>
    match exec i s with
    | .ok t =>
      match (x.stepCalls s t).bind fun ks => Token.callAll x.token (x.signed i.toContext) ks b with
      | some c => .ok (t, c)
      | none => .error ()
    | .error _ => .error ()
  | .token j, (s, b) =>
    match Token.exec x.token j b with
    | .ok c => .ok (s, c)
    | .error _ => .error ()

/-- Nobody else signs for the DAO. -/
def Setting.Fair (_ : Joint) : Act x → Prop
  | .dao _ => True
  | .token j => x.dao.house ∉ j.auths

/-- The step executes proposal `pid`, which had its mandate, and so makes call `k` on the token. -/
def Setting.Decides (c : Config) (e : Entry Joint (Act x)) (pid : ℕ) (k : Token.Call) : Prop :=
  ∃ i p, e.invocation = .dao i ∧ e.before.1.proposals.lookup pid = some p ∧
    (p.state = .active ∨ p.state = .queued) ∧ Mandate c i e.before.1 pid p ∧
    Executed e.after.1 pid ∧
    ∃ call ∈ actionOf pid p, call.target = x.token.contractAddress ∧ x.decode call = some k

def Setting.Decided (c : Config) (e : Entry Joint (Act x)) (k : Token.Call) : Prop :=
  ∃ pid, x.Decides c e pid k

/-- Somebody burns a negative amount in this step. -/
def Setting.BurnsNegative (c : Config) (e : Entry Joint (Act x)) : Prop :=
  match e.invocation with
  | .dao _ => ∃ k, x.Decided c e k ∧ k.BurnsNegative
  | .token j => j.call.BurnsNegative

variable {x} {c : Config}

theorem jointly_dao {i : Invocation x.dao} {s : State} {b : Token.State} {z : Joint}
    (h : x.jointly (.dao i) (s, b) = .ok z) : exec i s = .ok z.1 ∧ ∃ ks,
      x.stepCalls s z.1 = some ks ∧ Token.callAll x.token (x.signed i.toContext) ks b = some z.2 := by
  simp only [Setting.jointly] at h
  split at h
  · next t ht =>
    split at h
    · next c hc =>
      cases h
      exact ⟨ht, Option.bind_eq_some_iff.mp hc⟩
    · cases h
  · cases h

theorem jointly_token {j : Token.Invocation} {s : State} {b : Token.State} {z : Joint}
    (h : x.jointly (.token j) (s, b) = .ok z) : z.1 = s ∧ Token.exec x.token j b = .ok z.2 := by
  simp only [Setting.jointly] at h
  split at h
  · next c hc =>
    cases h
    exact ⟨rfl, hc⟩
  · cases h

theorem stepCalls_decided {i : Invocation x.dao} {s t : State} {b b' : Token.State}
    {ks : List Token.Call} (hs : Ready c s) (hqueued : QueuedPassed c s) (hexec : exec i s = .ok t)
    (hks : x.stepCalls s t = some ks) {k : Token.Call} (hk : k ∈ ks) :
    (∃ source target amount, k = .transfer source target amount) ∨
      x.Decided c ⟨(s, b), .dao i, (t, b')⟩ k := by
  obtain ⟨read, hread, rfl⟩ := Option.map_eq_some_iff.mp hks
  rcases List.mem_append.mp hk with hmoney | hcalled
  · obtain ⟨m, _, rfl⟩ := List.mem_map.mp hmoney
    exact .inl ⟨_, _, _, rfl⟩
  · refine .inr ?_
    obtain ⟨call, hcall, htarget, hdecode⟩ := Token.mem_readAll hread hcalled
    rcases exec_mandate hs hqueued hexec with hnone | ⟨pid, p, hp, hlive, hmandate, hdone, hact⟩
    · rw [hnone, List.drop_length] at hcall
      cases hcall
    · rw [hact, List.drop_left] at hcall
      exact ⟨pid, i, p, rfl, hp, hlive, hmandate, hdone, call, hcall, htarget, hdecode⟩

theorem jointly_governed {y z : Joint} {a : Act x} (hs : Ready c y.1) (hqueued : QueuedPassed c y.1)
    (hb : Token.Holds x.dao.house y.2) (hfair : x.Fair y a) (h : x.jointly a y = .ok z) :
    Token.Governed x.dao.house (x.Decided c ⟨y, a, z⟩) (x.BurnsNegative c ⟨y, a, z⟩) y.2 z.2 := by
  obtain ⟨s, b⟩ := y
  cases a with
  | dao i =>
    obtain ⟨hexec, ks, hks, hcalled⟩ := jointly_dao h
    have hdecided : ∀ k ∈ ks, (∃ source target amount, k = .transfer source target amount) ∨
        x.Decided c ⟨(s, b), .dao i, z⟩ k := fun k hk => stepCalls_decided hs hqueued hexec hks hk
    refine (Token.callAll_governed hb hcalled).mono (fun k hk hadmin => ?_) ?_
    · rcases hdecided k hk with ⟨_, _, _, rfl⟩ | hk
      · cases hadmin
      · exact hk
    · rintro ⟨k, hk, hburn⟩
      rcases hdecided k hk with ⟨_, _, _, rfl⟩ | hk
      · obtain ⟨_, _, _, hcall, _⟩ := hburn
        cases hcall
      · exact ⟨k, hk, hburn⟩
  | token j =>
    obtain ⟨_, hexec⟩ := jointly_token h
    exact Token.exec_governed_outside hb hfair hexec

end Joint

/-- What every joint run keeps: the DAO is in office while it has not left it, and no proposal that
    has decided something is open again. -/
structure Setting.InOffice (x : Setting) (c : Config) (past : List (Entry Joint (Act x))) (y : Joint) :
    Prop where
  ready : Ready c y.1
  queued : QueuedPassed c y.1
  spent : ∀ e ∈ past, ∀ pid k, x.Decides c e pid k → Executed y.1 pid
  office : Token.HandedOver (x.Decided c) past ∨ Token.Holds x.dao.house y.2

section Runs
variable {x : Setting} {c : Config}

theorem inOffice_step {past : List (Entry Joint (Act x))} {y z : Joint} {a : Act x}
    (hy : x.InOffice c past y) (hfair : x.Fair y a) (h : x.jointly a y = .ok z) :
    x.InOffice c (past ++ [⟨y, a, z⟩]) z := by
  have hoffice := Token.handedOver_snoc (e := ⟨y, a, z⟩) hy.office fun hb =>
    jointly_governed hy.ready hy.queued hb hfair h
  have hkept : Ready c z.1 ∧ QueuedPassed c z.1 ∧ ∀ pid, Executed y.1 pid → Executed z.1 pid := by
    cases a with
    | dao i =>
      obtain ⟨hexec, _⟩ := jointly_dao h
      exact ⟨exec_ready hy.ready hexec, exec_queuedPassed hy.ready hy.queued hexec,
        fun _ hdone => exec_executed hy.ready hdone hexec⟩
    | token j =>
      obtain ⟨hsame, _⟩ := jointly_token h
      rw [hsame]
      exact ⟨hy.ready, hy.queued, fun _ hdone => hdone⟩
  refine ⟨hkept.1, hkept.2.1, fun e he pid k hdecides => ?_, hoffice⟩
  rcases List.mem_append.mp he with he | he
  · exact hkept.2.2 pid (hy.spent e he pid k hdecides)
  · rw [List.mem_singleton.mp he] at hdecides
    obtain ⟨_, _, _, _, _, _, hdone, _⟩ := hdecides
    exact hdone

/-- As long as the DAO has not handed over the office of the token's admin, it holds it, and whatever
    the admin decides about the token was decided by a proposal that won its vote and waited out the
    delay, or that the security council signed. No proposal decides twice. -/
theorem admin_decided_by_proposals (x : Setting) (admin token : Address) (votingPeriod : ℕ)
    (quorum proposalBond : ℤ) (minQuorumBps maxQuorumBps quorumBps executionDelay : ℕ)
    (i₀ : Invocation x.dao) (s : State)
    (hcall : i₀.call = .initializeDao admin token votingPeriod quorum proposalBond minQuorumBps
      maxQuorumBps quorumBps executionDelay)
    (hinit : exec i₀ State.empty = .ok s) (b : Token.State) (hadmin : b.admin = some x.dao.house)
    (hpending : b.pendingAdmin = none) (as : List (Act x))
    (hfair : Along x.jointly x.Fair (s, b) as) (past later : List (Entry Joint (Act x)))
    (e : Entry Joint (Act x)) (hsplit : history x.jointly (s, b) as = past ++ e :: later) :
    let c : Config := ⟨admin, token, quorum, proposalBond, quorumBps, executionDelay⟩
    (∀ pid k, x.Decides c e pid k → ∀ e' ∈ past, ∀ k', ¬ x.Decides c e' pid k') ∧
      (Token.HandedOver (x.Decided c) past ∨ e.before.2.admin = some x.dao.house ∧
        (e.after.2.authority ≠ e.before.2.authority → ∃ k, x.Decided c e k ∧ k.isAdmin) ∧
        (Token.totalSupply e.before.2 < Token.totalSupply e.after.2 →
          (∃ k, x.Decided c e k ∧ k.isAdmin) ∨ x.BurnsNegative c e)) := by
  intro c
  have hstart : x.InOffice c [] (s, b) := by
    unfold exec at hinit
    rw [hcall] at hinit
    obtain ⟨_, hready, hproposals, _⟩ := initializeDao_ready hinit
    refine ⟨hready, fun pid p hp => ?_, by simp, .inr ⟨hadmin, hpending⟩⟩
    simp [hproposals] at hp
  obtain ⟨hy, hnow, hok⟩ := history_split (I := x.InOffice c)
    (fun past y a z hy ha hok => inOffice_step hy ha hok) hstart hfair hsplit
  refine ⟨fun pid k hdecides e' he' k' hearlier => ?_, hy.office.imp_right fun hb => ⟨hb.admin, ?_⟩⟩
  · obtain ⟨q, hq, hdone⟩ := hy.spent e' he' pid k' hearlier
    obtain ⟨i, p, _, hp, hlive, _⟩ := hdecides
    rw [hq] at hp
    cases hp
    rw [hdone] at hlive
    rcases hlive with hlive | hlive <;> cases hlive
  · rcases (jointly_governed hy.ready hy.queued hb hnow hok).decision with
      hdecided | ⟨hsame, hburn⟩
    · exact ⟨fun _ => hdecided, fun _ => .inl hdecided⟩
    · exact ⟨fun hchange => absurd hsame hchange, fun hless => .inr (hburn hless)⟩

end Runs

def demoIssuer : Token.Deployment where
  features := ⟨true, true, true, true⟩
  contractAddress := demoTarget
  maxEntryTtl := 6312000
  ed25519Verify := fun _ _ _ => false

/-- The DAO is the admin of a token, and knows one call on it. -/
def demoSetting : Setting where
  dao := demoDao
  token := demoIssuer
  decode call := if call.function = "f" then some (.mint demoAlice 100) else none

def demoIssued : Token.State := Token.run demoIssuer Token.State.empty
  [{ sequence := 1, auths := [demoDao.house],
     call := .initializeToken demoDao.house "Demo" "DMO" 7 none }]

def demoSetUp : State := run State.empty [demoInitialize 0]

def demoBallot : List (Act demoSetting) := (demoPassed .standard).map .dao

def demoExecution : Act demoSetting := .dao (demoCall 17 (.executeProposal 0))

/-- The proposal is executed, and 100 tokens are minted. -/
def demoMinted : Entry Joint (Act demoSetting) where
  before := HostRuns.run demoSetting.jointly (demoSetUp, demoIssued) demoBallot
  invocation := demoExecution
  after := HostRuns.run demoSetting.jointly (demoSetUp, demoIssued) (demoBallot ++ [demoExecution])

theorem demoDecided_mint {c : Config} {e : Entry Joint (Act demoSetting)} {k : Token.Call}
    (h : demoSetting.Decided c e k) : k = .mint demoAlice 100 := by
  obtain ⟨_, _, _, _, _, _, _, _, call, _, _, hdecode⟩ := h
  simp only [demoSetting] at hdecode
  split at hdecode
  · exact (Option.some.inj hdecode).symm
  · cases hdecode

theorem admin_decided_by_proposals_demo :
    Token.totalSupply demoMinted.before.2 = 0 ∧ Token.totalSupply demoMinted.after.2 = 100 ∧
      ∃ k, demoSetting.Decided ⟨demoAdmin, demoToken, 50, 0, 0, 5⟩ demoMinted k ∧ k.isAdmin := by
  have hbefore : Token.totalSupply demoMinted.before.2 = 0 := by decide +kernel
  have hafter : Token.totalSupply demoMinted.after.2 = 100 := by decide +kernel
  refine ⟨hbefore, hafter, ?_⟩
  obtain ⟨_, hdecision⟩ := admin_decided_by_proposals demoSetting demoAdmin demoToken 10 50 0 0 0 0 5
    (demoInitialize 0) demoSetUp rfl rfl demoIssued rfl rfl
    (demoBallot ++ [demoExecution]) ⟨trivial, trivial, trivial, trivial, trivial⟩
    (history demoSetting.jointly (demoSetUp, demoIssued) demoBallot) [] demoMinted rfl
  rcases hdecision with ⟨_, _, k, hk, hover⟩ | ⟨_, _, hsupply⟩
  · rw [demoDecided_mint hk] at hover
    rcases hover with ⟨_, hcall⟩ | ⟨_, hcall⟩ <;> cases hcall
  · rcases hsupply (by rw [hbefore, hafter]; decide) with hdecided | ⟨k, hk, hburn⟩
    · exact hdecided
    · rw [demoDecided_mint hk] at hburn
      obtain ⟨_, _, _, hcall, _⟩ := hburn
      cases hcall

end SorobanKit.Dao
