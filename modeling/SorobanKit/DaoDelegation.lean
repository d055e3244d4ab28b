import SorobanKit.DaoMoves
import SorobanKit.HostChains

set_option autoImplicit false

/-!
# Delegations and their cycles

`delegate` walks at most twenty delegations on from the delegatee and does not look at the delegatee
itself. What it rejects would close a cycle; a cycle of one, or one that is closed further away, it
lets through.
-/
namespace SorobanKit.Dao
open HostBalances HostChains HostInvocation HostRuns

/-- The stored delegatee. -/
def delegateeOf (s : State) (a : Address) : Option Address := s.delegates.lookup a

/-- The state once the delegation is stored. -/
def State.redirect (s : State) (delegator delegatee : Address) : State :=
  { s with delegates := s.delegates.insert delegator delegatee }

section Walk
variable {dao : Deployment} {c : Config} {i : Invocation dao} {env : Env} {s t : State}
  {delegator delegatee : Address}

theorem redirect_self :
    delegateeOf (s.redirect delegator delegatee) delegator = some delegatee :=
  Finmap.lookup_insert _

theorem redirect_other (a : Address) (ha : a ≠ delegator) :
    delegateeOf (s.redirect delegator delegatee) a = delegateeOf s a :=
  Finmap.lookup_insert_of_ne _ ha

theorem reachesDelegator_iff {hops : ℕ} {current : Address} :
    reachesDelegator delegator s hops current = true ↔
      ∃ n < hops, follow (delegateeOf s) (n + 1) current = some delegator := by
  induction hops generalizing current with
  | zero => simp [reachesDelegator]
  | succ hops ih =>
    unfold reachesDelegator
    cases hnext : s.delegates.lookup current with
    | none =>
      have hstop : delegateeOf s current = none := hnext
      simp [follow_succ, hstop]
    | some next =>
      have hgo : delegateeOf s current = some next := hnext
      rw [Bool.or_eq_true, decide_eq_true_eq, ih]
      simp only [follow_succ, hgo, Option.bind_some]
      constructor
      · rintro (rfl | ⟨n, hn, hreach⟩)
        · exact ⟨0, by omega, rfl⟩
        · exact ⟨n + 1, by omega, hreach⟩
      · rintro ⟨n, hn, hreach⟩
        cases n with
        | zero => exact .inl (Option.some.inj hreach)
        | succ n => exact .inr ⟨n, by omega, hreach⟩

/-- Storing the delegation closes a cycle exactly when the delegator is the delegatee or comes after
    it. -/
theorem redirect_closes_iff :
    (∃ n, follow (delegateeOf (s.redirect delegator delegatee)) (n + 1) delegator = some delegator) ↔
      delegator = delegatee ∨ ∃ n, follow (delegateeOf s) (n + 1) delegatee = some delegator := by
  rw [closes_iff redirect_other redirect_self]
  constructor
  · rintro ⟨n, hreach⟩
    cases n with
    | zero => exact .inl (Option.some.inj hreach).symm
    | succ n => exact .inr ⟨n, hreach⟩
  · rintro (rfl | ⟨n, hreach⟩)
    · exact ⟨0, rfl⟩
    · exact ⟨n + 1, hreach⟩

theorem delegate_circular_iff (hs : Ready c s) (hauth : delegator ∈ env.auths) :
    delegate env delegator delegatee s = .error (.error .circularDelegation) ↔
      ∃ n < maxHops, follow (delegateeOf s) (n + 1) delegatee = some delegator := by
  rw [← reachesDelegator_iff]
  cases hwalk : reachesDelegator delegator s maxHops delegatee with
  | false =>
    simp [delegate, requireInitialized, requireAuth, trapUnless, rejectIf, hs.initialized_eq, hauth,
      hwalk, ok_bind]
  | true =>
    simp [delegate, requireInitialized, requireAuth, trapUnless, rejectIf, hs.initialized_eq, hauth,
      hwalk, ok_bind]

theorem exec_delegates (hs : Ready c s) (h : exec i s = .ok t) :
    (∃ delegator delegatee, i.call = .delegate delegator delegatee ∧ delegator ∈ i.auths ∧
        reachesDelegator delegator s maxHops delegatee = false ∧ t = s.redirect delegator delegatee) ∨
      (∃ delegator, t.delegates = s.delegates.erase delegator) ∨ t.delegates = s.delegates := by
  cases exec_move hs h with
  | created _ _ _ _ _ _ _ _ _ h | voted _ _ _ _ _ _ _ _ _ _ h | locked _ _ _ _ _ _ _ _ h
    | unlocked _ _ _ _ _ _ _ _ h | queued _ _ _ _ _ _ _ h | executed _ _ _ _ h
    | cancelled _ _ _ _ _ _ _ h | dropped _ _ _ _ h =>
    have hsame := congrArg State.delegates h
    exact .inr (.inr hsame)
  | arranged hcall =>
    unfold exec at h
    rcases hcall with ⟨delegator, delegatee, hcall⟩ | ⟨delegator, hcall⟩ | ⟨admin, council, hcall⟩
    · simp only [hcall, delegate, bind_eq_ok, requireAuth_eq_ok, rejectIf_eq_ok, pure_eq_ok,
        Bool.not_eq_true] at h
      obtain ⟨_, _, _, hauth, _, hwalk, rfl⟩ := h
      exact .inl ⟨delegator, delegatee, hcall, hauth, hwalk, rfl⟩
    · simp only [hcall, undelegate, bind_eq_ok, pure_eq_ok] at h
      obtain ⟨_, _, _, _, rfl⟩ := h
      exact .inr (.inl ⟨delegator, rfl⟩)
    · simp only [hcall, setSecurityCouncil, bind_eq_ok, pure_eq_ok] at h
      obtain ⟨_, _, _, _, _, _, _, _, rfl⟩ := h
      exact .inr (.inr rfl)

/-- The calls the walk decides rightly: nobody delegates to themselves, and a delegator that comes
    after the delegatee does so within the walk. -/
def Foreseen (s : State) (i : Invocation dao) : Prop :=
  ∀ delegator delegatee, i.call = .delegate delegator delegatee → delegator ∈ i.auths →
    delegator ≠ delegatee ∧
      ((∃ n, follow (delegateeOf s) (n + 1) delegatee = some delegator) →
        ∃ n < maxHops, follow (delegateeOf s) (n + 1) delegatee = some delegator)

/-- The call ends in `CircularDelegation` exactly when storing the delegation would close a cycle. -/
def RejectsCycles (x : Attempt State (Invocation dao) (Failure DaoError)) : Prop :=
  ∀ delegator delegatee, x.invocation.call = .delegate delegator delegatee →
    delegator ∈ x.invocation.auths →
    (x.outcome = .error (.error .circularDelegation) ↔
      ∃ n, follow (delegateeOf (x.before.redirect delegator delegatee)) (n + 1) delegator =
        some delegator)

theorem rejectsCycles_iff (hs : Ready c s) (hacyclic : Acyclic (delegateeOf s)) :
    RejectsCycles ⟨s, i, exec i s⟩ ↔ Foreseen s i := by
  have hwalk : ∀ delegator delegatee, i.call = .delegate delegator delegatee →
      delegator ∈ i.auths → (exec i s = .error (.error .circularDelegation) ↔
        ∃ n < maxHops, follow (delegateeOf s) (n + 1) delegatee = some delegator) := by
    intro delegator delegatee hcall hauth
    unfold exec
    rw [hcall]
    exact delegate_circular_iff hs hauth
  constructor
  · intro hrejects delegator delegatee hcall hauth
    have hiff := hrejects delegator delegatee hcall hauth
    rw [hwalk delegator delegatee hcall hauth, redirect_closes_iff] at hiff
    refine ⟨?_, fun hreach => hiff.mpr (.inr hreach)⟩
    rintro rfl
    obtain ⟨n, -, hreach⟩ := hiff.mpr (.inl rfl)
    exact hacyclic delegator n hreach
  · intro hforeseen delegator delegatee hcall hauth
    obtain ⟨hne, hnear⟩ := hforeseen delegator delegatee hcall hauth
    rw [hwalk delegator delegatee hcall hauth, redirect_closes_iff]
    constructor
    · rintro ⟨n, -, hreach⟩
      exact .inr ⟨n, hreach⟩
    · rintro (heq | hreach)
      · exact absurd heq hne
      · exact hnear hreach

theorem exec_acyclic (hs : Ready c s) (hacyclic : Acyclic (delegateeOf s)) (hforeseen : Foreseen s i)
    (h : exec i s = .ok t) : Acyclic (delegateeOf t) := by
  rcases exec_delegates hs h with ⟨delegator, delegatee, hcall, hauth, hwalk, rfl⟩ |
    ⟨delegator, hdelegates⟩ | hdelegates
  · obtain ⟨hne, hnear⟩ := hforeseen delegator delegatee hcall hauth
    apply hacyclic.redirect redirect_other
    intro n hcycle
    rcases redirect_closes_iff.mp ⟨n, hcycle⟩ with heq | hreach
    · exact hne heq
    · rw [reachesDelegator_iff.mpr (hnear hreach)] at hwalk
      cases hwalk
  · apply hacyclic.restrict
    intro x y hxy
    rw [delegateeOf, hdelegates] at hxy
    exact (of_lookup_erase hxy).2
  · have hsame : delegateeOf t = delegateeOf s := by
      funext a
      rw [delegateeOf, hdelegates, delegateeOf]
    rw [hsame]
    exact hacyclic

end Walk

/-- In a run, the delegations of every state are free of cycles and every authorized delegation is
    rejected exactly when it would close one, precisely if in every attempt the delegator is not the
    delegatee and comes after it within twenty hops if at all. -/
theorem delegation_acyclic_iff (dao : Deployment) (admin token : Address) (votingPeriod : ℕ)
    (quorum proposalBond : ℤ) (minQuorumBps maxQuorumBps quorumBps executionDelay : ℕ)
    (i₀ : Invocation dao) (s : State)
    (hcall : i₀.call = .initializeDao admin token votingPeriod quorum proposalBond minQuorumBps
      maxQuorumBps quorumBps executionDelay)
    (hinit : exec i₀ State.empty = .ok s) (is : List (Invocation dao)) :
    ((∀ js, js <+: is → ∀ a n, follow (delegateeOf (run s js)) (n + 1) a ≠ some a) ∧
        ∀ x ∈ attempts exec s is, ∀ delegator delegatee,
          x.invocation.call = .delegate delegator delegatee → delegator ∈ x.invocation.auths →
          (x.outcome = .error (.error .circularDelegation) ↔
            ∃ n, follow (delegateeOf (x.before.redirect delegator delegatee)) (n + 1) delegator =
              some delegator)) ↔
      ∀ x ∈ attempts exec s is, ∀ delegator delegatee,
        x.invocation.call = .delegate delegator delegatee → delegator ∈ x.invocation.auths →
        delegator ≠ delegatee ∧
          ((∃ n, follow (delegateeOf x.before) (n + 1) delegatee = some delegator) →
            ∃ n < 20, follow (delegateeOf x.before) (n + 1) delegatee = some delegator) := by
  have hs : Ready ⟨admin, token, quorum, proposalBond, quorumBps, executionDelay⟩ s ∧
      Acyclic (delegateeOf s) := by
    unfold exec at hinit
    rw [hcall] at hinit
    have hnone : delegateeOf s = fun _ => none := by
      funext a
      rw [delegateeOf, (initializeDao_empty hinit).1, Finmap.lookup_empty]
    refine ⟨(initializeDao_ready hinit).2.1, ?_⟩
    rw [hnone]
    exact acyclic_none
  exact attempts_forall_iff (A := fun s => Acyclic (delegateeOf s)) (D := RejectsCycles)
    (C := Foreseen) (fun _ _ _ hs h => exec_ready hs h)
    (fun _ _ hs hacyclic => rejectsCycles_iff hs hacyclic)
    (fun _ _ _ hs hacyclic hforeseen h => exec_acyclic hs hacyclic hforeseen h) hs.1 hs.2

/-- Alice delegates to Bob, and Bob is not let to delegate back. -/
def demoDelegations : List (Invocation demoDao) :=
  [demoCall 2 (.delegate demoAlice demoBob), demoCall 3 (.delegate demoBob demoAlice)]

theorem delegation_acyclic_iff_demo :
    ∃ n, follow (delegateeOf ((run (run State.empty [demoInitialize 0])
      [demoCall 2 (.delegate demoAlice demoBob)]).redirect demoBob demoAlice)) (n + 1) demoBob =
        some demoBob := by
  have hiff := delegation_acyclic_iff demoDao demoAdmin demoToken 10 50 0 0 0 0 5 (demoInitialize 0)
    (run State.empty [demoInitialize 0]) rfl rfl demoDelegations
  have hforeseen : ∀ x ∈ attempts exec (run State.empty [demoInitialize 0]) demoDelegations,
      ∀ delegator delegatee, x.invocation.call = .delegate delegator delegatee →
        delegator ∈ x.invocation.auths → delegator ≠ delegatee ∧
          ((∃ n, follow (delegateeOf x.before) (n + 1) delegatee = some delegator) →
            ∃ n < 20, follow (delegateeOf x.before) (n + 1) delegatee = some delegator) := by
    intro x hx delegator delegatee hcall _
    simp only [demoDelegations, attempts, List.mem_cons, List.not_mem_nil, or_false] at hx
    rcases hx with rfl | rfl
    · cases hcall
      refine ⟨by decide, ?_⟩
      rintro ⟨n, hreach⟩
      cases hreach
    · cases hcall
      exact ⟨by decide, fun _ => ⟨0, by decide, rfl⟩⟩
  have hlaw := (hiff.mpr hforeseen).2 _ (List.mem_cons_of_mem _ List.mem_cons_self) demoBob demoAlice
    rfl (by decide)
  exact hlaw.mp rfl

/-- A call that only the address itself has signed. -/
def chainCall (k : ℕ) : Invocation demoDao :=
  { demoCall 2 (.delegate ⟨k + 100⟩ ⟨k + 101⟩) with
    auths := [⟨k + 100⟩]
    outside := by simp [demoDao] }

/-- Twenty-one delegations in a row, each to the next address. -/
def chainState : State :=
  run (run State.empty [demoInitialize 0]) ((List.range 21).map chainCall)

/-- Alice delegates to herself; and the last address of the row delegates to the first, which is
    twenty-one hops away. Both calls return. -/
theorem delegation_cycles :
    (∃ t, exec (demoCall 2 (.delegate demoAlice demoAlice)) (run State.empty [demoInitialize 0]) = .ok t ∧
      follow (delegateeOf t) 1 demoAlice = some demoAlice) ∧
    ∃ t, exec { chainCall 21 with call := .delegate ⟨121⟩ ⟨100⟩ } chainState = .ok t ∧
      follow (delegateeOf t) 22 ⟨100⟩ = some ⟨100⟩ :=
  ⟨⟨_, rfl, rfl⟩, ⟨_, rfl, by decide +kernel⟩⟩

end SorobanKit.Dao
