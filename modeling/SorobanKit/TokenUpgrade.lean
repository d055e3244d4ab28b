import SorobanKit.CommonUpgrade
import SorobanKit.TokenConservation

set_option autoImplicit false

/-!
# Upgrading the token

The code of the token can be replaced by its admin, a day after the admin said by what. The pair of
functions is compiled with a feature that is on by default.
-/
namespace SorobanKit.Token
open HostInteger HostInvocation HostRuns Upgrade

def upgradeDelayLedgers : ℕ := 17280

def bumpVersion (s : State) : Result TokenError State := do
  let newVersion ← okOr (checkedAddU32 (s.version.getD 0) 1) .overflow
  return { s with version := some newVersion }

def upgradePath : Path State TokenError where
  upgradeDelayLedgers := upgradeDelayLedgers
  requireAdmin := requireAdmin
  tooEarly := .unauthorized
  migrate := bumpVersion

def proposeUpgrade (ctx : Context) (wasmHash : WasmHash) (u : Upgradable State) :
    Result TokenError (Upgradable State) := upgradePath.proposeUpgrade ctx wasmHash u

def executeUpgrade (ctx : Context) (u : Upgradable State) : Result TokenError (Upgradable State) :=
  upgradePath.executeUpgrade ctx u

/-- An invocation of the token with its upgrade path. -/
abbrev UpgradableCall := UpgradeCall Invocation

def execUpgradable (d : Deployment) (x : UpgradableCall) (u : Upgradable State) :
    Result TokenError (Upgradable State) := upgradePath.exec (exec d) x u

def Upgradable.fresh : Upgradable State := { contract := State.empty }

/-- Whatever is called, the code of the token is replaced only by the admin in office, by code that
    the admin then in office had announced at least 17280 ledgers before and that no later
    announcement took the place of, and the new code finds the storage as it was, with the version
    one up. From any point of a run on, the code stays for 17280 ledgers unless an announcement made
    already is ready before. -/
theorem upgrade_needs_notice (d : Deployment) (xs : List UpgradableCall) :
    (∀ past e later, history (execUpgradable d) Upgradable.fresh xs = past ++ e :: later →
      e.after.wasm ≠ e.before.wasm →
      e.invocation.Executes ∧ ByAdmin upgradePath Invocation.toContext e.before e.invocation ∧
        (∃ wasmHash, e.after.wasm = some wasmHash ∧ Announced upgradePath Invocation.toContext past
          wasmHash (e.invocation.ctx Invocation.toContext).sequence) ∧
        e.after.contract = { e.before.contract with
          version := some (e.before.contract.version.getD 0 + 1) }) ∧
    ∀ now, (∀ wasmHash ready,
        (HostRuns.run (execUpgradable d) Upgradable.fresh xs).pendingUpgrade = some (wasmHash, ready) →
        now + upgradeDelayLedgers ≤ ready) →
      ∀ ys : List UpgradableCall,
        (∀ y ∈ ys, now ≤ (y.ctx Invocation.toContext).sequence ∧
          (y.ctx Invocation.toContext).sequence < now + upgradeDelayLedgers) →
        (HostRuns.run (execUpgradable d) (HostRuns.run (execUpgradable d) Upgradable.fresh xs) ys).wasm =
          (HostRuns.run (execUpgradable d) Upgradable.fresh xs).wasm := by
  constructor
  · intro past e later h hchanged
    obtain ⟨hcall, hadmin, hnotice⟩ :=
      upgraded_on_notice upgradePath (exec d) Invocation.toContext rfl h hchanged
    refine ⟨hcall, hadmin, hnotice, ?_⟩
    obtain ⟨_, _, hok⟩ := history_mem (I := fun _ => True) (P := fun _ _ => True)
      (fun _ _ _ _ _ _ => trivial) trivial (along_true (execUpgradable d) Upgradable.fresh xs)
      (by rw [h]; exact List.mem_append_right _ List.mem_cons_self)
    cases (upgrade_move Invocation.toContext hok).2 with
    | ran i s call ok result => rw [call] at hcall; exact hcall.elim
    | proposed ctx wasmHash call admin result => rw [call] at hcall; exact hcall.elim
    | executed ctx wasmHash readyAfter s call admin pending ready migrated result =>
      simp only [upgradePath, bumpVersion, bind_eq_ok, okOr_eq_ok, checkedAddU32_eq_some,
        pure_eq_ok] at migrated
      obtain ⟨_, ⟨_, rfl⟩, rfl⟩ := migrated
      rw [result]
  · intro now hwaits ys hsoon
    exact code_stays upgradePath (exec d) Invocation.toContext hwaits hsoon

/-- The admin announces at ledger 2, comes a ledger too early, and then in time. -/
def demoUpgrade : List UpgradableCall :=
  [.contract (demoCreate none), .proposeUpgrade ⟨2, [demoAdmin]⟩ 7, .executeUpgrade ⟨17281, [demoAdmin]⟩,
    .executeUpgrade ⟨17282, [demoAdmin]⟩]

example : (HostRuns.run (execUpgradable demoDeployment) Upgradable.fresh demoUpgrade).wasm = some 7 ∧
    (HostRuns.run (execUpgradable demoDeployment) Upgradable.fresh demoUpgrade).contract.version =
      some 2 ∧
    (HostRuns.run (execUpgradable demoDeployment) Upgradable.fresh (demoUpgrade.take 3)).wasm = none := by
  decide +kernel

end SorobanKit.Token
