import SorobanKit.DaoMoves

set_option autoImplicit false

/-!
# The life of one proposal

`Change` is what a returning call can do to one proposal, to the payments of its bond and to the
dispatches of its payload. Two invariants over the history follow from it: what became of the bond,
and what is known of a proposal that was queued.
-/
namespace SorobanKit.Dao
open HostBalances HostInteger HostInvocation HostRuns HostTransfers

/-- The payments of a bond. -/
def payouts (pid : ℕ) (log : List (Transfer Purpose)) : List (Transfer Purpose) :=
  log.filter fun x => x.purpose = .bondRefund pid ∨ x.purpose = .bondSlash pid

/-- The dispatches of a payload. -/
def actions (pid : ℕ) (log : List Dispatch) : List Dispatch :=
  log.filter fun d => d.proposalId = pid

/-- A veto or a cancellation. -/
def Call.Cancels (pid : ℕ) : Call → Prop
  | .vetoProposal id | .adminCancelProposal id | .cancelProposal _ id
  | .proposerCancelProposal _ id => id = pid
  | _ => False

/-- The two ways to cancel that do not touch the bond. -/
def Call.Drops (pid : ℕ) : Call → Prop
  | .vetoProposal id | .proposerCancelProposal _ id => id = pid
  | _ => False

/-- What became of one proposal, with the payments of its bond and the dispatches of its payload. -/
structure Effect (pid : ℕ) (s t : State) (p : Option Proposal) (pay : List (Transfer Purpose))
    (act : List Dispatch) : Prop where
  lookup_eq : t.proposals.lookup pid = p
  pay_eq : payouts pid t.transfers = payouts pid s.transfers ++ pay
  act_eq : actions pid t.dispatched = actions pid s.dispatched ++ act

inductive Change {dao : Deployment} (c : Config) (i : Invocation dao) (pid : ℕ) (s t : State) :
    Prop where
  | untouched (hcall : ¬ i.call.Cancels pid)
      (h : Effect pid s t (s.proposals.lookup pid) [] [])
  | created (p : Proposal) (hcall : ¬ i.call.Cancels pid) (hnone : s.proposals.lookup pid = none)
      (hstate : p.state = .active) (hyes : p.yesVotes = 0) (hno : p.noVotes = 0)
      (hsupply : p.totalSupplyAtCreation = i.totalSupply c.token)
      (h : Effect pid s t (some p) [] [])
  | voted (voter : Address) (p : Proposal) (own weight : ℤ) (support : Bool)
      (hcall : ¬ i.call.Cancels pid) (hp : s.proposals.lookup pid = some p)
      (hstate : p.state = .active) (hown : 0 < own)
      (hweight : Weight dao i.call voter pid (s.lock dao.house c.token pid voter own) p own weight)
      (h : Effect pid s t (some (p.withVotes support weight)) [] [])
  | queued (p : Proposal) (hcall : i.call = .queueProposal pid)
      (hp : s.proposals.lookup pid = some p) (hstate : p.state = .active)
      (hlate : p.deadline < i.sequence) (hpassed : Passed c p)
      (h : Effect pid s t
        (some { p with state := .queued, executionEta := p.deadline + c.executionDelay }) [] [])
  | executed (p : Proposal) (hp : s.proposals.lookup pid = some p)
      (hcall : (i.call = .executeProposal pid ∧ p.state = .queued ∧ p.executionEta ≤ i.sequence) ∨
        ∃ council, i.call = .emergencyExecuteProposal council pid ∧
          s.securityCouncil = some council ∧ council ∈ i.auths ∧
          (p.state = .active ∨ p.state = .queued))
      (h : Effect pid s t (some { p with state := .executed })
        (bondPay (.bondRefund pid) c.token dao.house p.proposer p.bondAmount) (actionOf pid p))
  | cancelled (p : Proposal) (purpose : Purpose) (target : Address)
      (hp : s.proposals.lookup pid = some p) (hstate : p.state = .active)
      (hcall : (i.call = .adminCancelProposal pid ∧ purpose = .bondSlash pid ∧ target = c.admin) ∨
        (i.call = .cancelProposal p.proposer pid ∧ purpose = .bondRefund pid ∧ target = p.proposer))
      (h : Effect pid s t (some { p with state := .cancelled })
        (bondPay purpose c.token dao.house target p.bondAmount) [])
  | dropped (p : Proposal) (hp : s.proposals.lookup pid = some p)
      (hcall : (i.call = .vetoProposal pid ∧ p.state = .queued) ∨
        (i.call = .proposerCancelProposal p.proposer pid ∧ p.state = .active))
      (h : Effect pid s t (some { p with state := .cancelled }) [] [])

section Logs
variable {pid other : ℕ}

theorem payouts_append (xs ys : List (Transfer Purpose)) :
    payouts pid (xs ++ ys) = payouts pid xs ++ payouts pid ys :=
  List.filter_append xs ys

theorem actions_append (xs ys : List Dispatch) :
    actions pid (xs ++ ys) = actions pid xs ++ actions pid ys :=
  List.filter_append xs ys

theorem payouts_eq_nil {log : List (Transfer Purpose)}
    (h : ∀ x ∈ log, x.purpose ≠ .bondRefund pid ∧ x.purpose ≠ .bondSlash pid) :
    payouts pid log = [] := by
  unfold payouts
  rw [List.filter_eq_nil_iff]
  intro x hx
  simpa using h x hx

theorem payouts_bondPay {purpose : Purpose} {token source target : Address} {bond : ℤ}
    (h : purpose = .bondRefund pid ∨ purpose = .bondSlash pid) :
    payouts pid (bondPay purpose token source target bond) =
      bondPay purpose token source target bond := by
  unfold payouts
  rw [List.filter_eq_self]
  intro x hx
  unfold bondPay at hx
  split at hx
  · rw [List.mem_singleton.mp hx]
    simpa using h
  · cases hx

theorem payouts_bondPay_other {purpose : Purpose} {token source target : Address} {bond : ℤ}
    (h : purpose ≠ .bondRefund pid ∧ purpose ≠ .bondSlash pid) :
    payouts pid (bondPay purpose token source target bond) = [] := by
  apply payouts_eq_nil
  intro x hx
  unfold bondPay at hx
  split at hx
  · rw [List.mem_singleton.mp hx]
    exact h
  · cases hx

theorem actions_actionOf (p : Proposal) : actions pid (actionOf pid p) = actionOf pid p := by
  unfold actions actionOf
  split <;> simp

theorem actions_actionOf_other (hne : other ≠ pid) (p : Proposal) :
    actions pid (actionOf other p) = [] := by
  unfold actions actionOf
  split <;> simp [hne]

end Logs

theorem Call.Proposes.not_cancels {call : Call} (h : call.Proposes) (pid : ℕ) :
    ¬ call.Cancels pid := by
  cases call <;> first | exact h.elim | exact id

theorem not_cancels_of_lockKey {call : Call} {key : ℕ × Address} (h : call.lockKey = some key)
    (pid : ℕ) : ¬ call.Cancels pid := by
  cases call <;> first | exact id | cases h

section Changes
variable {dao : Deployment} {c : Config} {i : Invocation dao} {s t : State}

/-- What a call writes: one proposal, and what it pays and dispatches. -/
structure Writes (s t : State) (pid : ℕ) (p : Proposal) (pay : List (Transfer Purpose))
    (act : List Dispatch) : Prop where
  proposals_eq : t.proposals = s.proposals.insert pid p
  transfers_eq : t.transfers = s.transfers ++ pay
  dispatched_eq : t.dispatched = s.dispatched ++ act

section Writes
variable {pid other : ℕ} {p : Proposal} {pay : List (Transfer Purpose)} {act : List Dispatch}

/-- For the other proposals only what is paid and dispatched for them counts. -/
theorem Writes.elsewhere (h : Writes s t other p pay act) (hne : other ≠ pid)
    (hpay : payouts pid pay = []) (hact : actions pid act = []) :
    Effect pid s t (s.proposals.lookup pid) [] [] := by
  refine ⟨?_, ?_, ?_⟩
  · rw [h.proposals_eq, Finmap.lookup_insert_of_ne _ (Ne.symm hne)]
  · rw [h.transfers_eq, payouts_append, hpay]
  · rw [h.dispatched_eq, actions_append, hact]

theorem Writes.here (h : Writes s t pid p pay act) :
    Effect pid s t (some p) (payouts pid pay) (actions pid act) := by
  refine ⟨?_, ?_, ?_⟩
  · rw [h.proposals_eq, Finmap.lookup_insert]
  · rw [h.transfers_eq, payouts_append]
  · rw [h.dispatched_eq, actions_append]

theorem writes_setProposal (h : t = s.setProposal pid p) : Writes s t pid p [] [] := by
  refine ⟨?_, ?_, ?_⟩ <;> rw [h]
  · rfl
  · exact (List.append_nil _).symm
  · exact (List.append_nil _).symm

end Writes

/-- A call that writes no proposal. -/
theorem Effect.none {pid : ℕ} (pay : List (Transfer Purpose)) (hproposals : t.proposals = s.proposals)
    (htransfers : t.transfers = s.transfers ++ pay) (hpay : payouts pid pay = [])
    (hdispatched : t.dispatched = s.dispatched) :
    Effect pid s t (s.proposals.lookup pid) [] [] := by
  refine ⟨?_, ?_, ?_⟩
  · rw [hproposals]
  · rw [htransfers, payouts_append, hpay]
  · rw [hdispatched, List.append_nil]

theorem Change.of_created {pid : ℕ} {p : Proposal} (hnew : s.proposals.lookup p.id = none)
    (hcall : i.call.Proposes) (hstate : p.state = .active) (hyes : p.yesVotes = 0)
    (hno : p.noVotes = 0) (hsupply : p.totalSupplyAtCreation = i.totalSupply c.token)
    (h : Writes s t p.id p (bondPay (.bond p.id) c.token p.proposer dao.house p.bondAmount) []) :
    Change c i pid s t := by
  have hcancels := hcall.not_cancels pid
  have hpay : payouts pid (bondPay (.bond p.id) c.token p.proposer dao.house p.bondAmount) = [] :=
    payouts_bondPay_other (by simp)
  by_cases heq : p.id = pid
  · subst heq
    have hhere := h.here
    rw [hpay] at hhere
    exact .created p hcancels hnew hstate hyes hno hsupply hhere
  · exact .untouched hcancels (h.elsewhere heq hpay rfl)

theorem Change.of_voted {pid other : ℕ} {voter : Address} {p : Proposal} {own weight : ℤ}
    {support : Bool} (hopen : Open i.sequence s other p) (hown : 0 < own)
    (hweight : Weight dao i.call voter other (s.lock dao.house c.token other voter own) p own weight)
    (h : Writes s t other (p.withVotes support weight)
      [⟨.lock other, c.token, voter, dao.house, own⟩] []) : Change c i pid s t := by
  have hcancels := not_cancels_of_lockKey hweight.lockKey_eq pid
  have hpay : payouts pid [⟨.lock other, c.token, voter, dao.house, own⟩] = [] :=
    payouts_eq_nil (by simp)
  by_cases heq : other = pid
  · subst heq
    have hhere := h.here
    rw [hpay] at hhere
    exact .voted voter p own weight support hcancels hopen.lookup_eq hopen.active hown hweight hhere
  · exact .untouched hcancels (h.elsewhere heq hpay rfl)

theorem Change.of_queued {pid other : ℕ} {p : Proposal} (hcall : i.call = .queueProposal other)
    (hp : s.proposals.lookup other = some p) (hstate : p.state = .active)
    (hlate : p.deadline < i.sequence) (hpassed : Passed c p)
    (h : Writes s t other { p with state := .queued, executionEta := p.deadline + c.executionDelay }
      [] []) : Change c i pid s t := by
  by_cases heq : other = pid
  · subst heq
    exact .queued p hcall hp hstate hlate hpassed h.here
  · exact .untouched (by rw [hcall]; exact id) (h.elsewhere heq rfl rfl)

theorem Change.of_executed {pid other : ℕ} {p : Proposal} (hp : s.proposals.lookup other = some p)
    (hcall : (i.call = .executeProposal other ∧ p.state = .queued ∧ p.executionEta ≤ i.sequence) ∨
      ∃ council, i.call = .emergencyExecuteProposal council other ∧
        s.securityCouncil = some council ∧ council ∈ i.auths ∧
        (p.state = .active ∨ p.state = .queued))
    (h : Writes s t other { p with state := .executed }
      (bondPay (.bondRefund other) c.token dao.house p.proposer p.bondAmount) (actionOf other p)) :
    Change c i pid s t := by
  by_cases heq : other = pid
  · subst heq
    have hhere := h.here
    rw [payouts_bondPay (.inl rfl), actions_actionOf] at hhere
    exact .executed p hp hcall hhere
  · have hcancels : ¬ i.call.Cancels pid := by
      rcases hcall with ⟨hcall, _⟩ | ⟨_, hcall, _⟩ <;> rw [hcall] <;> exact id
    exact .untouched hcancels
      (h.elsewhere heq (payouts_bondPay_other (by simp [heq])) (actions_actionOf_other heq p))

theorem Change.of_cancelled {pid other : ℕ} {p : Proposal} {purpose : Purpose} {target : Address}
    (hp : s.proposals.lookup other = some p) (hstate : p.state = .active)
    (hcall : (i.call = .adminCancelProposal other ∧ purpose = .bondSlash other ∧ target = c.admin) ∨
      (i.call = .cancelProposal p.proposer other ∧ purpose = .bondRefund other ∧
        target = p.proposer))
    (h : Writes s t other { p with state := .cancelled }
      (bondPay purpose c.token dao.house target p.bondAmount) []) : Change c i pid s t := by
  by_cases heq : other = pid
  · subst heq
    have hpurpose : purpose = .bondRefund other ∨ purpose = .bondSlash other := by
      rcases hcall with ⟨_, hpurpose, _⟩ | ⟨_, hpurpose, _⟩
      · exact .inr hpurpose
      · exact .inl hpurpose
    have hhere := h.here
    rw [payouts_bondPay hpurpose] at hhere
    exact .cancelled p purpose target hp hstate hcall hhere
  · have hother : ¬ i.call.Cancels pid ∧ purpose ≠ .bondRefund pid ∧ purpose ≠ .bondSlash pid := by
      rcases hcall with ⟨hcall, rfl, _⟩ | ⟨hcall, rfl, _⟩ <;> rw [hcall] <;>
        simp [Call.Cancels, heq]
    exact .untouched hother.1 (h.elsewhere heq (payouts_bondPay_other hother.2) rfl)

theorem Change.of_dropped {pid other : ℕ} {p : Proposal} (hp : s.proposals.lookup other = some p)
    (hcall : (i.call = .vetoProposal other ∧ p.state = .queued) ∨
      (i.call = .proposerCancelProposal p.proposer other ∧ p.state = .active))
    (h : Writes s t other { p with state := .cancelled } [] []) : Change c i pid s t := by
  by_cases heq : other = pid
  · subst heq
    exact .dropped p hp hcall h.here
  · have hcancels : ¬ i.call.Cancels pid := by
      rcases hcall with ⟨hcall, _⟩ | ⟨hcall, _⟩ <;> rw [hcall] <;> exact heq
    exact .untouched hcancels (h.elsewhere heq rfl rfl)

theorem exec_change (hs : Ready c s) (pid : ℕ) (h : exec i s = .ok t) : Change c i pid s t := by
  cases exec_move hs h with
  | created p hcall hauth hcount hstate hyes hno hbond hsupply h =>
    exact .of_created (hs.fresh hcount) hcall hstate hyes hno hsupply
      ⟨by rw [h]; rfl, by rw [h], by rw [h]; exact (List.append_nil _).symm⟩
  | voted voter other p own weight support hauth hopen hown hweight h =>
    exact .of_voted hopen hown hweight
      ⟨by rw [h]; rfl, by rw [h]; rfl, by rw [h]; exact (List.append_nil _).symm⟩
  | locked voter other p own hcall hauth hopen hown h =>
    subst h
    exact .untouched (by rw [hcall]; exact id) (.none _ rfl rfl (payouts_eq_nil (by simp)) rfl)
  | unlocked voter other p amount hcall hp hlate hlock h =>
    subst h
    exact .untouched (by rw [hcall]; exact id) (.none _ rfl rfl (payouts_eq_nil (by simp)) rfl)
  | arranged hcall h =>
    have hcancels : ¬ i.call.Cancels pid := by
      rcases hcall with ⟨_, _, hcall⟩ | ⟨_, hcall⟩ | ⟨_, _, hcall⟩ <;> rw [hcall] <;> exact id
    have htransfers : t.transfers = s.transfers ++ [] := by rw [h, List.append_nil]
    exact .untouched hcancels (.none _ (by rw [h]) htransfers rfl (by rw [h]))
  | queued other p hcall hp hstate hlate hpassed h =>
    exact .of_queued hcall hp hstate hlate hpassed (writes_setProposal h)
  | executed other p hp hcall h =>
    exact .of_executed hp hcall ⟨by rw [h]; rfl, by rw [h], by rw [h]⟩
  | cancelled other p purpose target hp hstate hcall h =>
    rw [hs.ids other p hp] at hcall
    exact .of_cancelled hp hstate hcall
      ⟨by rw [h]; rfl, by rw [h], by rw [h]; exact (List.append_nil _).symm⟩
  | dropped other p hp hcall h => exact .of_dropped hp hcall (writes_setProposal h)

end Changes

end SorobanKit.Dao
