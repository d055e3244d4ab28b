import SorobanKit.HostInteger
import SorobanKit.HostInvocation
import SorobanKit.HostNotice

set_option autoImplicit false

/-!
# Upgrading a contract

Two contracts have the same pair of functions: the admin proposes the hash of new code, and may
put it in place a day of ledgers later. The invocations after an upgrade run other code, so runs are
followed up to it.
-/
namespace SorobanKit.Upgrade
open HostInteger HostInvocation HostNotice HostRuns

/-- `BytesN<32>` -/
abbrev WasmHash := BitVec 256

/-- A contract's own storage, the pending upgrade and the code that took the place of this one. -/
structure Upgradable (σ : Type) where
  contract : σ
  pendingUpgrade : Option (WasmHash × ℕ) := none
  wasm : Option WasmHash := none

variable {σ ι ε : Type}

/-- What the functions of one contract differ in from those of another. -/
structure Path (σ ε : Type) where
  upgradeDelayLedgers : ℕ
  requireAdmin : σ → Result ε Address
  tooEarly : ε
  migrate : σ → Result ε σ

inductive UpgradeCall (ι : Type) where
  | contract (i : ι)
  | proposeUpgrade (ctx : Context) (wasmHash : WasmHash)
  | executeUpgrade (ctx : Context)

namespace Path
variable (P : Path σ ε) (own : ι → σ → Result ε σ) (context : ι → Context)

def proposeUpgrade (ctx : Context) (wasmHash : WasmHash) (u : Upgradable σ) :
    Result ε (Upgradable σ) := do
  let admin ← P.requireAdmin u.contract
  requireAuth ctx admin
  let readyAfter ← unwrap (checkedAddU32 ctx.sequence P.upgradeDelayLedgers)
  return { u with pendingUpgrade := some (wasmHash, readyAfter) }

def executeUpgrade (ctx : Context) (u : Upgradable σ) : Result ε (Upgradable σ) := do
  let admin ← P.requireAdmin u.contract
  requireAuth ctx admin
  let (wasmHash, readyAfter) ← okOr u.pendingUpgrade P.tooEarly
  rejectIf (ctx.sequence < readyAfter) P.tooEarly
  let s ← P.migrate u.contract
  return { contract := s, pendingUpgrade := none, wasm := some wasmHash }

/-- Once other code is in place this one answers no more. -/
def exec (x : UpgradeCall ι) (u : Upgradable σ) : Result ε (Upgradable σ) := do
  trapUnless u.wasm.isNone
  match x with
  | .contract i => do
    let s ← own i u.contract
    return { u with contract := s }
  | .proposeUpgrade ctx wasmHash => P.proposeUpgrade ctx wasmHash u
  | .executeUpgrade ctx => P.executeUpgrade ctx u

end Path

def UpgradeCall.ctx (context : ι → Context) : UpgradeCall ι → Context
  | .contract i => context i
  | .proposeUpgrade ctx _ => ctx
  | .executeUpgrade ctx => ctx

def UpgradeCall.proposed : UpgradeCall ι → Option WasmHash
  | .proposeUpgrade _ wasmHash => some wasmHash
  | _ => none

def UpgradeCall.Executes : UpgradeCall ι → Prop
  | .executeUpgrade _ => True
  | _ => False

section Steps
variable {P : Path σ ε} {own : ι → σ → Result ε σ} {x : UpgradeCall ι} {u v : Upgradable σ}

/-- The admin in office has signed the call. -/
def ByAdmin (P : Path σ ε) (context : ι → Context) (u : Upgradable σ) (x : UpgradeCall ι) : Prop :=
  ∃ admin, P.requireAdmin u.contract = .ok admin ∧ admin ∈ (x.ctx context).auths

inductive Move (P : Path σ ε) (own : ι → σ → Result ε σ) (context : ι → Context) (x : UpgradeCall ι)
    (u v : Upgradable σ) : Prop where
  | ran (i : ι) (s : σ) (call : x = .contract i) (ok : own i u.contract = .ok s)
      (result : v = { u with contract := s })
  | proposed (ctx : Context) (wasmHash : WasmHash) (call : x = .proposeUpgrade ctx wasmHash)
      (admin : ByAdmin P context u x)
      (result : v = { u with
        pendingUpgrade := some (wasmHash, ctx.sequence + P.upgradeDelayLedgers) })
  | executed (ctx : Context) (wasmHash : WasmHash) (readyAfter : ℕ) (s : σ)
      (call : x = .executeUpgrade ctx) (admin : ByAdmin P context u x)
      (pending : u.pendingUpgrade = some (wasmHash, readyAfter)) (ready : readyAfter ≤ ctx.sequence)
      (migrated : P.migrate u.contract = .ok s)
      (result : v = { contract := s, pendingUpgrade := none, wasm := some wasmHash })

theorem upgrade_move (context : ι → Context) (h : P.exec own x u = .ok v) :
    u.wasm = none ∧ Move P own context x u v := by
  unfold Path.exec at h
  rw [bind_eq_ok] at h
  obtain ⟨_, hnone, h⟩ := h
  rw [trapUnless_eq_ok, Option.isNone_iff_eq_none] at hnone
  refine ⟨hnone, ?_⟩
  cases x with
  | contract i =>
    simp only [bind_eq_ok, pure_eq_ok] at h
    obtain ⟨s, hs, rfl⟩ := h
    exact .ran i s rfl hs rfl
  | proposeUpgrade ctx wasmHash =>
    simp only [Path.proposeUpgrade, bind_eq_ok, requireAuth_eq_ok, unwrap_eq_ok, checkedAddU32_eq_some,
      pure_eq_ok] at h
    obtain ⟨admin, hadmin, _, hauth, _, ⟨_, rfl⟩, rfl⟩ := h
    exact .proposed ctx wasmHash rfl ⟨admin, hadmin, hauth⟩ rfl
  | executeUpgrade ctx =>
    simp only [Path.executeUpgrade, bind_eq_ok, requireAuth_eq_ok, okOr_eq_ok, rejectIf_eq_ok, not_lt,
      pure_eq_ok] at h
    obtain ⟨admin, hadmin, _, hauth, ⟨wasmHash, readyAfter⟩, hpending, _, hready, s, hs, rfl⟩ := h
    exact .executed ctx wasmHash readyAfter s rfl ⟨admin, hadmin, hauth⟩ hpending hready hs rfl

end Steps

section Runs
variable (P : Path σ ε) (own : ι → σ → Result ε σ) (context : ι → Context)

/-- An upgrade is a change on notice. -/
def notice : Notice (Upgradable σ) (UpgradeCall ι) WasmHash where
  pending u := u.pendingUpgrade
  announced e := e.invocation.proposed
  carried e := match e.invocation with
    | .executeUpgrade _ => e.after.wasm
    | _ => none
  time x := (x.ctx context).sequence
  delay := P.upgradeDelayLedgers

theorem notice_kept : (notice P context).Kept (P.exec own) where
  announce u x v wasmHash h hannounced := by
    cases (upgrade_move context h).2 with
    | ran i s call ok result => simp [notice, call, UpgradeCall.proposed] at hannounced
    | proposed ctx wasmHash call admin result =>
      simp only [notice, call, UpgradeCall.proposed, Option.some.injEq] at hannounced
      subst hannounced
      rw [result, call]
      rfl
    | executed ctx wasmHash readyAfter s call admin pending ready migrated result =>
      simp [notice, call, UpgradeCall.proposed] at hannounced
  carry u x v wasmHash h hcarried := by
    cases (upgrade_move context h).2 with
    | ran i s call ok result => simp [notice, call] at hcarried
    | proposed ctx wasmHash call admin result => simp [notice, call] at hcarried
    | executed ctx wasmHash readyAfter s call admin pending ready migrated result =>
      simp only [notice, call, result, Option.some.injEq] at hcarried
      subst hcarried
      subst result
      subst call
      exact ⟨rfl, readyAfter, pending, ready⟩
  apart u x v h hapart := by
    cases (upgrade_move context h).2 with
    | ran i s call ok result => rw [result]; rfl
    | proposed ctx wasmHash call admin result =>
      simp [Notice.Apart, notice, call, UpgradeCall.proposed] at hapart
    | executed ctx wasmHash readyAfter s call admin pending ready migrated result =>
      simp [Notice.Apart, notice, call, result] at hapart

/-- The announcement behind an upgrade: the last one before it, made by the admin then in office. -/
structure Announced (past : List (Entry (Upgradable σ) (UpgradeCall ι))) (wasmHash : WasmHash)
    (now : ℕ) : Prop where
  found : ∃ before a between, past = before ++ a :: between ∧ a.invocation.proposed = some wasmHash ∧
    ByAdmin P context a.before a.invocation ∧
    (a.invocation.ctx context).sequence + P.upgradeDelayLedgers ≤ now ∧
    ∀ x ∈ between, x.invocation.proposed = none

theorem changed_carries {x : UpgradeCall ι} {u v : Upgradable σ} (h : P.exec own x u = .ok v)
    (hchanged : v.wasm ≠ u.wasm) : x.Executes ∧ ByAdmin P context u x ∧
      ∃ wasmHash, v.wasm = some wasmHash ∧ (notice P context).carried ⟨u, x, v⟩ = some wasmHash := by
  cases (upgrade_move context h).2 with
  | ran i s call ok result =>
    rw [result] at hchanged
    exact absurd rfl hchanged
  | proposed ctx wasmHash call admin result =>
    rw [result] at hchanged
    exact absurd rfl hchanged
  | executed ctx wasmHash readyAfter s call admin pending ready migrated result =>
    subst result
    refine ⟨by rw [call]; trivial, admin, wasmHash, rfl, ?_⟩
    rw [call]
    rfl

theorem proposed_by_admin {x : UpgradeCall ι} {u v : Upgradable σ} (h : P.exec own x u = .ok v)
    {wasmHash : WasmHash} (hproposed : x.proposed = some wasmHash) : ByAdmin P context u x := by
  cases (upgrade_move context h).2 with
  | ran i s call ok result => simp [call, UpgradeCall.proposed] at hproposed
  | proposed ctx wasmHash' call admin result => exact admin
  | executed ctx wasmHash' readyAfter s call admin pending ready migrated result =>
    simp [call, UpgradeCall.proposed] at hproposed

/-- The code changes only by an upgrade that the admin has announced and carries out. -/
theorem upgraded_on_notice {u : Upgradable σ} (hnone : u.pendingUpgrade = none)
    {xs : List (UpgradeCall ι)} {past later : List (Entry (Upgradable σ) (UpgradeCall ι))}
    {e : Entry (Upgradable σ) (UpgradeCall ι)} (h : history (P.exec own) u xs = past ++ e :: later)
    (hchanged : e.after.wasm ≠ e.before.wasm) :
    e.invocation.Executes ∧ ByAdmin P context e.before e.invocation ∧
      ∃ wasmHash, e.after.wasm = some wasmHash ∧
        Announced P context past wasmHash (e.invocation.ctx context).sequence := by
  have hok : ∀ x ∈ history (P.exec own) u xs, P.exec own x.invocation x.before = .ok x.after :=
    fun x hx => (history_mem (I := fun _ => True) (P := fun _ _ => True)
      (fun _ _ _ _ _ _ => trivial) trivial (along_true _ _ _) hx).2.2
  have hlast := hok e (by rw [h]; exact List.mem_append_right _ List.mem_cons_self)
  obtain ⟨hcall, hadmin, wasmHash, hwasm, hcarried⟩ := changed_carries P own context hlast hchanged
  obtain ⟨before, a, between, hsplit, hannounced, hdelay, hsince⟩ :=
    carried_on_notice (notice_kept P own context) hnone h hcarried
  have hmade := hok a (by
    rw [h, hsplit]
    exact List.mem_append_left _ (List.mem_append_right _ List.mem_cons_self))
  exact ⟨hcall, hadmin, wasmHash, hwasm, before, a, between, hsplit, hannounced,
    proposed_by_admin P own context hmade hannounced, hdelay, fun x hx => (hsince x hx).1⟩

/-- From ledger `now` on, and for the length of the delay, the code stays, unless an announcement
    that waits already is ready before. -/
theorem code_stays {u : Upgradable σ} {now : ℕ}
    (hwaits : ∀ wasmHash ready, u.pendingUpgrade = some (wasmHash, ready) →
      now + P.upgradeDelayLedgers ≤ ready)
    {xs : List (UpgradeCall ι)} (hsoon : ∀ x ∈ xs, now ≤ (x.ctx context).sequence ∧
      (x.ctx context).sequence < now + P.upgradeDelayLedgers) :
    (HostRuns.run (P.exec own) u xs).wasm = u.wasm := by
  refine run_unchanged Upgradable.wasm fun e he => ?_
  by_contra hchanged
  obtain ⟨_, _, hok⟩ := history_mem (I := fun _ => True) (P := fun _ _ => True)
    (fun _ _ _ _ _ _ => trivial) trivial (along_true _ _ _) he
  obtain ⟨_, _, wasmHash, _, hcarried⟩ := changed_carries P own context hok hchanged
  have hnone := unchanged_within_delay (notice_kept P own context) hwaits hsoon e he
  rw [hnone] at hcarried
  cases hcarried

end Runs

end SorobanKit.Upgrade
