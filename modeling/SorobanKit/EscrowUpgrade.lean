import SorobanKit.CommonUpgrade
import SorobanKit.EscrowOnTokenRefund

set_option autoImplicit false

/-!
# Upgrading the escrow

The admin of an escrow can replace its code, and with it all its rules, a day after having said by
what. Until then the old rules hold: the buyer of a funded escrow can still take the amount back,
unless the admin has paused it as well. The pair of functions is compiled with the `pausable`
feature.
-/
namespace SorobanKit.Escrow
open HostInteger HostInvocation HostRuns HostTransfers Upgrade Deal

def upgradeDelayLedgers : ℕ := 17280

def requireAdmin (d : Deployment) (s : State) : Result EscrowError Address := do
  trapUnless d.pausable
  getRequired s.admin

def upgradePath (d : Deployment) : Path State EscrowError where
  upgradeDelayLedgers := upgradeDelayLedgers
  requireAdmin := requireAdmin d
  tooEarly := .notAuthorized
  migrate s := .ok s

def proposeUpgrade (d : Deployment) (ctx : Context) (wasmHash : WasmHash) (u : Upgradable State) :
    Result EscrowError (Upgradable State) := (upgradePath d).proposeUpgrade ctx wasmHash u

def executeUpgrade (d : Deployment) (ctx : Context) (u : Upgradable State) :
    Result EscrowError (Upgradable State) := (upgradePath d).executeUpgrade ctx u

def contextOf (i : Invocation) : Context := i.toContext

/-- An invocation of the escrow with its upgrade path. -/
abbrev UpgradableCall := UpgradeCall Invocation

def execUpgradable (d : Deployment) (x : UpgradableCall) (u : Upgradable State) :
    Result EscrowError (Upgradable State) := (upgradePath d).exec (exec d) x u

/-- No call settles a dispute. -/
def Undisputed (d : Deployment) (u : Upgradable State) (x : UpgradableCall) : Prop :=
  ∀ i, x = .contract i → NoSettle d u.contract i

/-- The buyer of a funded escrow that runs gets the whole amount back by one signed call, when the
    token accepts the transfer. -/
def CanLeave (d : Deployment) (s : State) : Prop :=
  ∀ buyer token amount, s.buyer = some buyer → s.tokenContract = some token →
    s.amount = some amount → 0 < amount → s.state = some .funded →
    ¬ (d.pausable ∧ s.paused.getD false) → ∀ env : Env, buyer ∈ env.auths →
    env.tokens.accepts s.transfers ⟨.refund, token, d.contractAddress, buyer, amount⟩ →
    requestPartialRefund d env s = .ok { s with
      state := some .refunded, amount := some 0, locked := some false,
      transfers := s.transfers ++ [⟨.refund, token, d.contractAddress, buyer, amount⟩] }

section Steps
variable {d : Deployment} {s : State} {u v : Upgradable State} {x : UpgradableCall}

/-- A single-token escrow between two calls. -/
structure Settled (s : State) : Prop where
  books : ∃ D, Represents s D ∧ Custody D
  lock : s.locked.getD false = false

theorem Settled.canLeave (hs : Settled s) : CanLeave d s := by
  intro buyer token amount hbuyer htoken hamount hpos hfunded hrunning env hauth haccepts
  obtain ⟨D, hrep, hD⟩ := hs.books
  obtain rfl : D.buyer = buyer := Option.some.inj (hrep.buyer.symm.trans hbuyer)
  obtain rfl : D.token = token := Option.some.inj (hrep.token.symm.trans htoken)
  obtain rfl : D.amount = amount := Option.some.inj (hrep.amount.symm.trans hamount)
  have hstate : D.state = .funded := Option.some.inj (hrep.state.symm.trans hfunded)
  exact requestPartialRefund_succeeds hrep hD hs.lock hstate hpos hrunning hauth haccepts

theorem Settled.step (hkeep : d.settlement.KeepsTerms) (hfree : d.settlement.FreesLock)
    (hs : Settled u.contract) (hx : Undisputed d u x) (h : execUpgradable d x u = .ok v) :
    Settled v.contract := by
  cases (upgrade_move contextOf h).2 with
  | ran i t call ok result =>
    obtain ⟨D, hrep, hD⟩ := hs.books
    obtain ⟨D', ht, hmove⟩ := exec_move hrep (hx i call) ok
    rw [result]
    exact ⟨⟨D', ht, custody_move hD hmove⟩, (exec_kept hkeep hfree hrep ok).2.lock hs.lock⟩
  | proposed ctx wasmHash call admin result =>
    rw [result]
    exact hs
  | executed ctx wasmHash readyAfter t call admin pending ready migrated result =>
    cases migrated
    rw [result]
    exact hs

end Steps

/-- In every run of a single-token escrow without dispute settlements, its code is replaced only by
    the admin, by code that the admin had announced at least 17280 ledgers before and announced last,
    and the new code finds the storage as it was. At every call from the announcement up to the
    upgrade the buyer could still leave. -/
theorem a_day_to_leave (d : Deployment) (hkeep : d.settlement.KeepsTerms)
    (hfree : d.settlement.FreesLock) (i₀ : Invocation) (s₀ : State)
    (hsingle : i₀.call.isSingleToken) (hcreate : exec d i₀ State.empty = .ok s₀)
    (xs : List UpgradableCall)
    (hxs : Along (execUpgradable d) (Undisputed d) { contract := s₀ } xs)
    (past later : List (Entry (Upgradable State) UpgradableCall))
    (e : Entry (Upgradable State) UpgradableCall)
    (hsplit : history (execUpgradable d) { contract := s₀ } xs = past ++ e :: later)
    (hchanged : e.after.wasm ≠ e.before.wasm) :
    e.invocation.Executes ∧ ByAdmin (upgradePath d) contextOf e.before e.invocation ∧
    e.after.contract = e.before.contract ∧
    ∃ wasmHash before a between, e.after.wasm = some wasmHash ∧ past = before ++ a :: between ∧
      a.invocation.proposed = some wasmHash ∧
      ByAdmin (upgradePath d) contextOf a.before a.invocation ∧
      (a.invocation.ctx contextOf).sequence + upgradeDelayLedgers ≤
        (e.invocation.ctx contextOf).sequence ∧
      (∀ x ∈ between, x.invocation.proposed = none) ∧
      ∀ x ∈ between ++ [e], CanLeave d x.before.contract := by
  have hinit : i₀.call.isInitialize := by
    cases hc : i₀.call <;> rw [hc] at hsingle <;> first | rfl | cases hsingle
  obtain ⟨D₀, hs₀, hopen⟩ := exec_opening hinit hcreate
  have hfirst : Settled s₀ := ⟨⟨D₀, hs₀, custody_opening hsingle hopen⟩, (exec_ready hinit hcreate).lock⟩
  have hentry : ∀ x ∈ history (execUpgradable d) { contract := s₀ } xs,
      Settled x.before.contract ∧ execUpgradable d x.invocation x.before = .ok x.after := by
    intro x hx
    obtain ⟨hsettled, _, hok⟩ := history_mem (I := fun u : Upgradable State => Settled u.contract)
      (fun _ _ _ hu hx h => hu.step hkeep hfree hx h) hfirst hxs hx
    exact ⟨hsettled, hok⟩
  obtain ⟨hcall, hadmin, wasmHash, hwasm, hnotice⟩ :=
    upgraded_on_notice (upgradePath d) (exec d) contextOf rfl hsplit hchanged
  obtain ⟨before, a, between, hpast, hproposed, hby, hdelay, hsince⟩ := hnotice.found
  have hmem : e ∈ history (execUpgradable d) { contract := s₀ } xs := by
    rw [hsplit]
    exact List.mem_append_right _ List.mem_cons_self
  refine ⟨hcall, hadmin, ?_, wasmHash, before, a, between, hwasm, hpast, hproposed, hby, hdelay, hsince,
    fun x hx => (hentry x ?_).1.canLeave⟩
  · cases (upgrade_move contextOf (hentry e hmem).2).2 with
    | ran i s call ok result => rw [call] at hcall; exact hcall.elim
    | proposed ctx hash call admin result => rw [call] at hcall; exact hcall.elim
    | executed ctx hash readyAfter s call admin pending ready migrated result =>
      cases migrated
      rw [result]
  · rcases List.mem_append.mp hx with hx | hx
    · rw [hsplit, hpast]
      exact List.mem_append_left _ (List.mem_append_right _ (List.mem_cons_of_mem _ hx))
    · rw [List.mem_singleton.mp hx]
      exact hmem

/-- Funded at ledger 5; announced there, and put in place a day later. -/
def demoReplaced : List UpgradableCall :=
  [.contract (demoCall [demoBuyer] .fund), .proposeUpgrade ⟨5, [demoAdmin]⟩ 7,
    .executeUpgrade ⟨17285, [demoAdmin]⟩]

def demoUpgradeEntry : Entry (Upgradable State) UpgradableCall where
  before := HostRuns.run (execUpgradable demoDeployment) { contract := demoSingleState }
    (demoReplaced.take 2)
  invocation := .executeUpgrade ⟨17285, [demoAdmin]⟩
  after := HostRuns.run (execUpgradable demoDeployment) { contract := demoSingleState } demoReplaced

theorem a_day_to_leave_demo :
    demoUpgradeEntry.after.wasm = some 7 ∧
      demoUpgradeEntry.after.contract = demoUpgradeEntry.before.contract ∧
      CanLeave demoDeployment demoUpgradeEntry.before.contract := by
  have hleave := a_day_to_leave demoDeployment demoSettlement_keepsTerms demoSettlement_freesLock
    demoSingle demoSingleState rfl rfl demoReplaced
    ⟨fun i hi => (by cases hi; rfl), fun i hi => (by cases hi), fun i hi => (by cases hi), trivial⟩
    ((history (execUpgradable demoDeployment) { contract := demoSingleState } demoReplaced).take 2) []
    demoUpgradeEntry rfl (by decide +kernel)
  obtain ⟨_, _, hsame, _, _, _, _, _, _, _, _, _, _, hcan⟩ := hleave
  exact ⟨by decide +kernel, hsame,
    hcan demoUpgradeEntry (List.mem_append_right _ (List.mem_singleton.mpr rfl))⟩

end SorobanKit.Escrow
