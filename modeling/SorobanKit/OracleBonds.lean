import SorobanKit.HostBalances
import SorobanKit.HostTransfers
import SorobanKit.OraclePublishers

set_option autoImplicit false

/-!
# Bonds of the oracle's publishers

Whoever posts a bond is put on the list of publishers. The admin names the token of the bonds and
an insurance fund, and takes penalties out of a bond. A bond is what was posted and not taken, and
tokens leave the contract for the fund alone: no call gives a bond back.
-/
namespace SorobanKit.OracleBonds
open HostBalances HostInteger HostInvocation HostTransfers
open HostRuns (Entry history history_invariant_along history_mem along_true)
open OraclePublishers (FeedError)

inductive BondError where
  | feed (e : FeedError)
  | insufficientBond
  | bondingNotConfigured
  deriving DecidableEq, Repr

inductive Purpose where
  | bond
  | penalty
  deriving DecidableEq, Repr

structure State extends OraclePublishers.State where
  bondToken : Option Address := none
  insuranceFund : Option Address := none
  publisherBond : Balances Address := ∅
  transfers : List (Transfer Purpose) := []

structure Env extends toFeed : OraclePublishers.Env where
  tokens : TokenReplies Purpose

def fromFeed {α : Type} : Result FeedError α → Result BondError α
  | .ok a => .ok a
  | .error (.error e) => .error (.error (.feed e))
  | .error .trap => .error .trap

section Entrypoints
variable (self : Address) (env : Env)

def configureBonding (admin tokenContract insuranceFund : Address) (s : State) :
    Result BondError State := do
  fromFeed (OraclePublishers.asAdmin env.toFeed admin s.toState)
  return { s with bondToken := some tokenContract, insuranceFund := some insuranceFund }

def callTransfer (x : Transfer Purpose) (s : State) : Result BondError State :=
  recordTransfer env.tokens s.transfers x fun log => { s with transfers := log }

def registerPublisher (publisher : Address) (bond : I128) (s : State) : Result BondError State := do
  requireAuth env.toContext publisher
  rejectIf (bond.val ≤ 0) .insufficientBond
  let tokenContract ← okOr s.bondToken .bondingNotConfigured
  let publishers := s.publishers.getD []
  let s ← callTransfer env ⟨.bond, tokenContract, publisher, self, bond.val⟩ s
  return { s with
    publishers := if publisher ∈ publishers then s.publishers else some (publishers ++ [publisher])
    publisherBond := s.publisherBond.insert publisher
      (saturatingAdd (entry s.publisherBond publisher) bond.val) }

def slashPublisher (publisher : Address) (penalty : I128) (s : State) : Result BondError State := do
  let admin ← okOr s.admin (.feed .notInitialized)
  requireAuth env.toContext admin
  rejectIf (penalty.val ≤ 0) .insufficientBond
  let tokenContract ← okOr s.bondToken .bondingNotConfigured
  let insuranceFund ← okOr s.insuranceFund .bondingNotConfigured
  let bond := entry s.publisherBond publisher
  rejectIf (bond < penalty.val) .insufficientBond
  let s ← callTransfer env ⟨.penalty, tokenContract, self, insuranceFund, penalty.val⟩ s
  return { s with publisherBond := s.publisherBond.insert publisher (bond - penalty.val) }

end Entrypoints

inductive Call where
  | feed (call : OraclePublishers.Call)
  | configureBonding (admin tokenContract insuranceFund : Address)
  | registerPublisher (publisher : Address) (bond : I128)
  | slashPublisher (publisher : Address) (penalty : I128)

structure Invocation extends Env where
  call : Call

def execFeed (env : Env) (call : OraclePublishers.Call) (s : State) : Result BondError State := do
  let feed ← fromFeed (OraclePublishers.exec { toEnv := env.toFeed, call := call } s.toState)
  return { s with toState := feed }

def exec (self : Address) (i : Invocation) (s : State) : Result BondError State :=
  match i.call with
  | .feed call => execFeed i.toEnv call s
  | .configureBonding admin tokenContract insuranceFund =>
    configureBonding i.toEnv admin tokenContract insuranceFund s
  | .registerPublisher publisher bond => registerPublisher self i.toEnv publisher bond s
  | .slashPublisher publisher penalty => slashPublisher self i.toEnv publisher penalty s

section Steps
variable {self : Address} {i : Invocation} {s t : State}

/-- What a call that returned did to the bonds and the transfers. -/
inductive Outcome (self : Address) (i : Invocation) (s t : State) : Prop
  | kept (hregister : ∀ publisher bond, i.call ≠ .registerPublisher publisher bond)
      (hslash : ∀ publisher penalty, i.call ≠ .slashPublisher publisher penalty)
      (hbonds : t.publisherBond = s.publisherBond) (hlog : t.transfers = s.transfers)
  | posted (publisher token : Address) (bond : I128)
      (hcall : i.call = .registerPublisher publisher bond) (hauth : publisher ∈ i.auths)
      (hpos : 0 < bond.val) (htoken : s.bondToken = some token)
      (haccepts : i.tokens.accepts s.transfers ⟨.bond, token, publisher, self, bond.val⟩)
      (hbonds : t.publisherBond = s.publisherBond.insert publisher
        (saturatingAdd (entry s.publisherBond publisher) bond.val))
      (hlog : t.transfers = s.transfers ++ [⟨.bond, token, publisher, self, bond.val⟩])
  | slashed (publisher token fund admin : Address) (penalty : I128)
      (hcall : i.call = .slashPublisher publisher penalty) (hadmin : s.admin = some admin)
      (hauth : admin ∈ i.auths) (hpos : 0 < penalty.val)
      (hcovered : penalty.val ≤ entry s.publisherBond publisher) (htoken : s.bondToken = some token)
      (hfund : s.insuranceFund = some fund)
      (haccepts : i.tokens.accepts s.transfers ⟨.penalty, token, self, fund, penalty.val⟩)
      (hbonds : t.publisherBond = s.publisherBond.insert publisher
        (entry s.publisherBond publisher - penalty.val))
      (hlog : t.transfers = s.transfers ++ [⟨.penalty, token, self, fund, penalty.val⟩])

theorem exec_outcome (h : exec self i s = .ok t) : Outcome self i s t := by
  unfold exec at h
  cases hcall : i.call with
  | feed call =>
    simp only [hcall, execFeed, bind_eq_ok, pure_eq_ok] at h
    obtain ⟨_, _, rfl⟩ := h
    exact .kept (by simp [hcall]) (by simp [hcall]) rfl rfl
  | configureBonding admin tokenContract insuranceFund =>
    simp only [hcall, configureBonding, bind_eq_ok, pure_eq_ok] at h
    obtain ⟨_, _, rfl⟩ := h
    exact .kept (by simp [hcall]) (by simp [hcall]) rfl rfl
  | registerPublisher publisher bond =>
    simp only [hcall, registerPublisher, callTransfer, recordTransfer_eq_ok, bind_eq_ok,
      requireAuth_eq_ok, rejectIf_eq_ok, okOr_eq_ok, pure_eq_ok] at h
    obtain ⟨_, hauth, _, hpos, token, htoken, _, ⟨haccepts, rfl⟩, rfl⟩ := h
    exact .posted publisher token bond hcall hauth (not_le.mp hpos) htoken haccepts rfl rfl
  | slashPublisher publisher penalty =>
    simp only [hcall, slashPublisher, callTransfer, recordTransfer_eq_ok, bind_eq_ok,
      requireAuth_eq_ok, rejectIf_eq_ok, okOr_eq_ok, pure_eq_ok] at h
    obtain ⟨admin, hadmin, _, hauth, _, hpos, token, htoken, fund, hfund, _, hcovered, _,
      ⟨haccepts, rfl⟩, rfl⟩ := h
    exact .slashed publisher token fund admin penalty hcall hadmin hauth (not_le.mp hpos)
      (not_lt.mp hcovered) htoken hfund haccepts rfl rfl

end Steps

/-- What an invocation posts for a publisher. -/
def Call.posts (p : Address) : Call → ℤ
  | .registerPublisher publisher bond => if publisher = p then bond.val else 0
  | _ => 0

/-- What an invocation takes from a publisher. -/
def Call.takes (p : Address) : Call → ℤ
  | .slashPublisher publisher penalty => if publisher = p then penalty.val else 0
  | _ => 0

section Books
variable {self : Address} {i : Invocation} {s t : State} {p : Address}

def posted (p : Address) (past : List (Entry State Invocation)) : ℤ :=
  (past.map fun e => e.invocation.call.posts p).sum

def taken (p : Address) (past : List (Entry State Invocation)) : ℤ :=
  (past.map fun e => e.invocation.call.takes p).sum

theorem Outcome.posts_of_kept
    (hregister : ∀ publisher bond, i.call ≠ .registerPublisher publisher bond) :
    i.call.posts p = 0 := by
  unfold Call.posts
  split
  · next publisher bond hcall => exact absurd hcall (hregister publisher bond)
  · rfl

theorem Outcome.takes_of_kept
    (hslash : ∀ publisher penalty, i.call ≠ .slashPublisher publisher penalty) :
    i.call.takes p = 0 := by
  unfold Call.takes
  split
  · next publisher penalty hcall => exact absurd hcall (hslash publisher penalty)
  · rfl

/-- The bond that an invocation posts fits beside the one already there. -/
def BondFits (s : State) (call : Call) (p : Address) : Prop :=
  InI128 (entry s.publisherBond p + call.posts p)

/-- One step of the books; nothing is lost unless the bond no longer fits. -/
theorem Outcome.books (h : Outcome self i s t) (hs : NonnegEntries s.publisherBond) (p : Address) :
    entry t.publisherBond p + i.call.takes p ≤ entry s.publisherBond p + i.call.posts p ∧
      (BondFits s i.call p →
        entry t.publisherBond p + i.call.takes p = entry s.publisherBond p + i.call.posts p) := by
  cases h with
  | kept hregister hslash hbonds hlog =>
    rw [posts_of_kept hregister, takes_of_kept hslash, hbonds]
    exact ⟨le_refl _, fun _ => rfl⟩
  | posted publisher token bond hcall hauth hpos htoken haccepts hbonds hlog =>
    have hhad := hs.entry_nonneg publisher
    have hadded : saturatingAdd (entry s.publisherBond publisher) bond.val ≤
        entry s.publisherBond publisher + bond.val := by
      unfold saturatingAdd
      rw [saturate_of_nonneg (by omega)]
      exact min_le_left _ _
    simp only [BondFits, hcall, Call.posts, Call.takes, hbonds]
    by_cases hp : p = publisher
    · subst hp
      rw [entry_insert_self, if_pos rfl, add_zero]
      exact ⟨hadded, saturate_of_inI128⟩
    · rw [entry_insert_of_ne _ _ hp, if_neg (Ne.symm hp)]
      exact ⟨le_refl _, fun _ => rfl⟩
  | slashed publisher token fund admin penalty hcall hadmin hauth hpos hcovered htoken hfund haccepts
      hbonds hlog =>
    simp only [hcall, Call.posts, Call.takes, hbonds]
    by_cases hp : p = publisher
    · subst hp
      rw [entry_insert_self, if_pos rfl]
      exact ⟨by omega, fun _ => by omega⟩
    · rw [entry_insert_of_ne _ _ hp, if_neg (Ne.symm hp)]
      exact ⟨le_refl _, fun _ => rfl⟩

theorem Outcome.nonneg (h : Outcome self i s t) (hs : NonnegEntries s.publisherBond) :
    NonnegEntries t.publisherBond := by
  cases h with
  | kept hregister hslash hbonds hlog =>
    rw [hbonds]
    exact hs
  | posted publisher token bond hcall hauth hpos htoken haccepts hbonds hlog =>
    have hhad := hs.entry_nonneg publisher
    rw [hbonds]
    refine hs.insert ?_
    unfold saturatingAdd
    rw [saturate_of_nonneg (by omega)]
    omega
  | slashed publisher token fund admin penalty hcall hadmin hauth hpos hcovered htoken hfund haccepts
      hbonds hlog =>
    rw [hbonds]
    exact hs.insert (by omega)

/-- The books of one publisher after a history. -/
structure Accounted (p : Address) (past : List (Entry State Invocation)) (s : State) : Prop where
  nonneg : 0 ≤ entry s.publisherBond p
  covered : entry s.publisherBond p + taken p past ≤ posted p past
  exact : (∀ e ∈ past, BondFits e.before e.invocation.call p) →
    entry s.publisherBond p + taken p past = posted p past

/-- What a call that returned transferred: a bond, signed by who posts it, or a penalty that the
    bond covers, signed by the admin and paid to the insurance fund. -/
def PaidAsBooked (self : Address) (e : Entry State Invocation) : Prop :=
  match e.invocation.call with
  | .registerPublisher publisher bond =>
    publisher ∈ e.invocation.auths ∧ ∃ token ∈ e.before.bondToken,
      e.after.transfers = e.before.transfers ++ [⟨.bond, token, publisher, self, bond.val⟩]
  | .slashPublisher publisher penalty =>
    (∃ admin ∈ e.before.admin, admin ∈ e.invocation.auths) ∧
      penalty.val ≤ entry e.before.publisherBond publisher ∧
      ∃ token ∈ e.before.bondToken, ∃ fund ∈ e.before.insuranceFund,
        e.after.transfers = e.before.transfers ++ [⟨.penalty, token, self, fund, penalty.val⟩]
  | _ => e.after.transfers = e.before.transfers

theorem paidAsBooked_of_exec {e : Entry State Invocation}
    (h : exec self e.invocation e.before = .ok e.after) : PaidAsBooked self e := by
  unfold PaidAsBooked
  cases exec_outcome h with
  | kept hregister hslash hbonds hlog =>
    split
    · next publisher bond hcall => exact absurd hcall (hregister publisher bond)
    · next publisher penalty hcall => exact absurd hcall (hslash publisher penalty)
    · exact hlog
  | posted publisher token bond hcall hauth hpos htoken haccepts hbonds hlog =>
    rw [hcall]
    exact ⟨hauth, token, htoken, hlog⟩
  | slashed publisher token fund admin penalty hcall hadmin hauth hpos hcovered htoken hfund haccepts
      hbonds hlog =>
    rw [hcall]
    exact ⟨⟨admin, hadmin, hauth⟩, hcovered, token, htoken, fund, hfund, hlog⟩

end Books

/-- In every run a bond is what its publisher posted less what was taken, exactly so while bonds
    fit, and nothing is transferred but bonds to the contract and penalties to the fund. -/
theorem bonds_accounted (self : Address) (is : List Invocation) :
    (∀ p, Accounted p (history (exec self) {} is) (HostRuns.run (exec self) {} is)) ∧
      ∀ e ∈ history (exec self) {} is, PaidAsBooked self e := by
  have hsteps : ∀ e ∈ history (exec self) {} is, exec self e.invocation e.before = .ok e.after :=
    fun e he => (history_mem (I := fun _ => True) (fun _ _ _ _ _ _ => trivial) trivial
      (along_true _ _ _) he).2.2
  refine ⟨fun p => ?_, fun e he => paidAsBooked_of_exec (hsteps e he)⟩
  have hstart : Accounted p [] ({} : State) := ⟨le_refl _, le_refl _, fun _ => rfl⟩
  have hbooks : NonnegEntries (HostRuns.run (exec self) {} is).publisherBond ∧
      Accounted p (history (exec self) {} is) (HostRuns.run (exec self) {} is) := by
    refine history_invariant_along
      (I := fun past s => NonnegEntries s.publisherBond ∧ Accounted p past s) ?_
      ⟨nonneg_empty, hstart⟩ (along_true _ _ _)
    rintro past s i t ⟨hs, hpast⟩ - hok
    have houtcome := exec_outcome hok
    have ht := houtcome.nonneg hs
    obtain ⟨hle, hfits⟩ := houtcome.books hs p
    have hcovered := hpast.covered
    refine ⟨ht, ht.entry_nonneg p, ?_, fun hall => ?_⟩
    · simp only [posted, taken, List.map_append, List.sum_append, List.map_cons, List.map_nil,
        List.sum_cons, List.sum_nil] at hcovered ⊢
      omega
    · obtain ⟨hold, hnew⟩ := List.forall_mem_append.mp hall
      have hexact := hpast.exact hold
      have hstep := hfits (hnew _ List.mem_cons_self)
      simp only [posted, taken, List.map_append, List.sum_append, List.map_cons, List.map_nil,
        List.sum_cons, List.sum_nil] at hexact ⊢
      omega
  exact hbooks.2

end SorobanKit.OracleBonds
