import SorobanKit.MultisigQuorum
import SorobanKit.TokenGovernor

set_option autoImplicit false

/-!
# A wallet in the office of the token's admin

The wallet signs for what it calls, so where it is the token's admin, an executed proposal can make
a call of the admin on the token. `jointly` runs both contracts next to each other: the calls an
invocation of the wallet makes are made in the token's state, and everybody else calls the token
without the wallet's signature. As long as the wallet gives the office to nobody, what the admin
decides about the token was decided by a quorum of the wallet's signers.
-/
namespace SorobanKit.Multisig
open HostInteger HostInvocation HostRuns

/-- Where the wallet is, the token next to it, and how the token reads the calls it gets. -/
structure Setting where
  wallet : Address
  token : Token.Deployment
  decode : Dispatch → Option Token.Call

/-- Both contracts, and a call of somebody on one of them. -/
abbrev Joint := State × Token.State

inductive Act where
  | wallet (i : Invocation)
  | token (j : Token.Invocation)

section Joint
variable (x : Setting)

/-- The wallet signs for the calls it makes. -/
def Setting.signed (ctx : Context) : Context := { ctx with auths := x.wallet :: ctx.auths }

def Setting.deliverAll (ctx : Context) (b : Token.State) (calls : List Dispatch) :
    Option Token.State :=
  (Token.readAll x.token Dispatch.target x.decode calls).bind fun ks =>
    Token.callAll x.token (x.signed ctx) ks b

/-- The wallet sees the calls on the token return; the invocation fails if one does not. -/
def Setting.answered (i : Invocation) : Invocation := { i with
  invoke := fun call =>
    if call.target = x.token.contractAddress then some ((i.invoke call).getD 0) else i.invoke call }

def Setting.jointly : Act → Joint → Except Unit Joint
  | .wallet i, (s, b) =>
    match exec (x.answered i) s with
    | .ok t =>
      match x.deliverAll i.toContext b (t.dispatched.drop s.dispatched.length) with
      | some c => .ok (t, c)
      | none => .error ()
    | .error _ => .error ()
  | .token j, (s, b) =>
    match Token.exec x.token j b with
    | .ok c => .ok (s, c)
    | .error _ => .error ()

/-- No signer leaves the wallet with a signature on an open proposal, and nobody else signs for it. -/
def Setting.Fair (y : Joint) : Act → Prop
  | .wallet i => NoOpenSignature y.1 i
  | .token j => x.wallet ∉ j.auths

variable {x}

theorem jointly_wallet {i : Invocation} {s : State} {b : Token.State} {z : Joint}
    (h : x.jointly (.wallet i) (s, b) = .ok z) :
    exec (x.answered i) s = .ok z.1 ∧ ∃ calls, z.1.dispatched = s.dispatched ++ calls ∧
      x.deliverAll i.toContext b calls = some z.2 := by
  simp only [Setting.jointly] at h
  split at h
  · next t ht =>
    split at h
    · next c hc =>
      cases h
      obtain ⟨calls, hcalls, _⟩ := exec_dispatched ht
      rw [hcalls, List.drop_left] at hc
      exact ⟨ht, calls, hcalls, hc⟩
    · cases h
  · cases h

theorem jointly_token {j : Token.Invocation} {s : State} {b : Token.State} {z : Joint}
    (h : x.jointly (.token j) (s, b) = .ok z) : z.1 = s ∧ Token.exec x.token j b = .ok z.2 := by
  simp only [Setting.jointly] at h
  split at h
  · next c hc =>
    cases h
    exact ⟨rfl, hc⟩
  · cases h

/-- The call reaches the token, which reads it as `k`. -/
def Setting.Reads (x : Setting) (call : Dispatch) (k : Token.Call) : Prop :=
  call.target = x.token.contractAddress ∧ x.decode call = some k

/-- A call that the step made on the token, and that a quorum of the signers stands behind. -/
def Setting.Decided (x : Setting) (e : Entry Joint Act) (k : Token.Call) : Prop :=
  ∃ calls, e.after.1.dispatched = e.before.1.dispatched ++ calls ∧
    ∃ call ∈ calls, x.Reads call k ∧ Quorum e.before.1 call.txId

/-- Somebody burns a negative amount in this step. -/
def Setting.BurnsNegative (x : Setting) (e : Entry Joint Act) : Prop :=
  match e.invocation with
  | .wallet _ => ∃ k, x.Decided e k ∧ k.BurnsNegative
  | .token j => j.call.BurnsNegative

theorem deliverAll_governed {ctx : Context} {calls : List Dispatch} {b c : Token.State}
    (hb : Token.Holds x.wallet b) (h : x.deliverAll ctx b calls = some c) :
    Token.Governed x.wallet (fun k => ∃ call ∈ calls, x.Reads call k)
      (∃ k, (∃ call ∈ calls, x.Reads call k) ∧ k.BurnsNegative) b c := by
  obtain ⟨ks, hread, hcalled⟩ := Option.bind_eq_some_iff.mp h
  have hmem : ∀ k ∈ ks, ∃ call ∈ calls, x.Reads call k := fun k hk => Token.mem_readAll hread hk
  exact (Token.callAll_governed hb hcalled).mono (fun k hk _ => hmem k hk)
    fun ⟨k, hk, hburn⟩ => ⟨k, hmem k hk, hburn⟩

theorem jointly_governed {y z : Joint} {a : Act} (hwallet : Wallet y.1) (hbacked : OpenBacked y.1)
    (hb : Token.Holds x.wallet y.2) (hfair : x.Fair y a) (h : x.jointly a y = .ok z) :
    Token.Governed x.wallet (x.Decided ⟨y, a, z⟩) (x.BurnsNegative ⟨y, a, z⟩) y.2 z.2 := by
  obtain ⟨s, b⟩ := y
  cases a with
  | wallet i =>
    obtain ⟨hexec, calls, hcalls, hdeliver⟩ := jointly_wallet h
    obtain ⟨made, hmade, hquorum⟩ := executed_quorum hwallet hbacked hexec
    have heq : made = calls := List.append_cancel_left (hmade.symm.trans hcalls)
    subst heq
    have hdecided : ∀ k, (∃ call ∈ made, x.Reads call k) → x.Decided ⟨(s, b), .wallet i, z⟩ k :=
      fun k ⟨call, hcall, hreads⟩ => ⟨made, hmade, call, hcall, hreads, hquorum call hcall⟩
    exact (deliverAll_governed hb hdeliver).mono (fun k hk _ => hdecided k hk)
      fun ⟨k, hk, hburn⟩ => ⟨k, hdecided k hk, hburn⟩
  | token j =>
    obtain ⟨_, hexec⟩ := jointly_token h
    exact Token.exec_governed_outside hb hfair hexec

end Joint

/-- The quorum behind open proposals, and the wallet in office while it has not left it. -/
structure Setting.InOffice (x : Setting) (past : List (Entry Joint Act)) (y : Joint) : Prop where
  wallet : Wallet y.1
  backed : OpenBacked y.1
  office : Token.HandedOver x.Decided past ∨ Token.Holds x.wallet y.2

section Runs
variable {x : Setting}

theorem inOffice_step {past : List (Entry Joint Act)} {y z : Joint} {a : Act}
    (hy : x.InOffice past y) (hfair : x.Fair y a) (h : x.jointly a y = .ok z) :
    x.InOffice (past ++ [⟨y, a, z⟩]) z := by
  have hkept : Wallet z.1 ∧ OpenBacked z.1 := by
    cases a with
    | wallet i =>
      obtain ⟨hexec, _⟩ := jointly_wallet h
      exact ⟨exec_wallet hy.wallet hexec,
        exec_openBacked (i := x.answered i) hy.backed hfair hexec⟩
    | token j =>
      obtain ⟨hsame, _⟩ := jointly_token h
      rw [hsame]
      exact ⟨hy.wallet, hy.backed⟩
  exact ⟨hkept.1, hkept.2, Token.handedOver_snoc hy.office fun hb =>
    jointly_governed hy.wallet hy.backed hb hfair h⟩

/-- As long as the wallet has not handed over the office of the token's admin, it holds it, whatever
    the admin decides about the token was decided by a quorum of its signers, and so were new
    tokens, but for those of a negative burn. -/
theorem admin_decided_by_quorum (x : Setting) (before : List Invocation)
    (hbefore : Along exec NoOpenSignature State.empty before) (b : Token.State)
    (hadmin : b.admin = some x.wallet) (hpending : b.pendingAdmin = none) (as : List Act)
    (hfair : Along x.jointly x.Fair (run State.empty before, b) as)
    (past later : List (Entry Joint Act)) (e : Entry Joint Act)
    (hsplit : history x.jointly (run State.empty before, b) as = past ++ e :: later) :
    Token.HandedOver x.Decided past ∨ e.before.2.admin = some x.wallet ∧
      (e.after.2.authority ≠ e.before.2.authority → ∃ k, x.Decided e k ∧ k.isAdmin) ∧
      (Token.totalSupply e.before.2 < Token.totalSupply e.after.2 →
        (∃ k, x.Decided e k ∧ k.isAdmin) ∨ x.BurnsNegative e) := by
  have hstart : x.InOffice [] (run State.empty before, b) := by
    obtain ⟨hwallet, hbacked⟩ := run_invariant_along
      (I := fun s => Wallet s ∧ OpenBacked s)
      (fun s i t hs hi hok => ⟨exec_wallet hs.1 hok, exec_openBacked hs.2 hi hok⟩)
      ⟨.inl rfl, fun _ _ htx _ => by cases htx⟩ hbefore
    exact ⟨hwallet, hbacked, .inr ⟨hadmin, hpending⟩⟩
  obtain ⟨hy, hnow, hok⟩ := history_split (I := x.InOffice)
    (fun past y a z hy ha hok => inOffice_step hy ha hok) hstart hfair hsplit
  refine hy.office.imp_right fun hb => ⟨hb.admin, ?_⟩
  rcases (jointly_governed hy.wallet hy.backed hb hnow hok).decision with hdecided | ⟨hsame, hburn⟩
  · exact ⟨fun _ => hdecided, fun _ => .inl hdecided⟩
  · exact ⟨fun hchange => absurd hsame hchange, fun hless => .inr (hburn hless)⟩

end Runs

def demoIssuer : Token.Deployment where
  features := ⟨true, true, true, true⟩
  contractAddress := ⟨100⟩
  maxEntryTtl := 6312000
  ed25519Verify := fun _ _ _ => false

/-- The wallet at 50 is the admin of a token, and knows one call on it. -/
def demoSetting : Setting where
  wallet := ⟨50⟩
  token := demoIssuer
  decode call := if call.function = "mint" then some (.mint ⟨1⟩ 100) else none

def demoIssued : Token.State := Token.run demoIssuer Token.State.empty
  [{ sequence := 1, auths := [⟨50⟩], call := .initializeToken ⟨50⟩ "Demo" "DMO" 7 none }]

def demoMinting : List Invocation :=
  [demoSetup, ⟨demoEnv, .proposeTransaction ⟨1⟩ ⟨100⟩ "mint" [] 100⟩, demoSignature]

/-- Two of three owners have 100 tokens minted. -/
def demoMinted : Entry Joint Act where
  before := (run State.empty demoMinting, demoIssued)
  invocation := .wallet demoExecution
  after := HostRuns.run demoSetting.jointly (run State.empty demoMinting, demoIssued)
    [.wallet demoExecution]

theorem demoMinting_fair : Along exec NoOpenSignature State.empty demoMinting := by
  refine ⟨?_, ?_, ?_, trivial⟩ <;> intro _ _ _ hcall <;> cases hcall

theorem admin_decided_by_quorum_demo :
    Token.totalSupply demoMinted.before.2 = 0 ∧ Token.totalSupply demoMinted.after.2 = 100 ∧
      ∃ k, demoSetting.Decided demoMinted k ∧ k.isAdmin := by
  have hbefore : Token.totalSupply demoMinted.before.2 = 0 := by decide +kernel
  have hafter : Token.totalSupply demoMinted.after.2 = 100 := by decide +kernel
  have hfair : Along demoSetting.jointly demoSetting.Fair (run State.empty demoMinting, demoIssued)
      [.wallet demoExecution] :=
    ⟨(fun _ _ _ hcall => by cases hcall), trivial⟩
  refine ⟨hbefore, hafter, ?_⟩
  rcases admin_decided_by_quorum demoSetting demoMinting demoMinting_fair demoIssued rfl rfl
    [.wallet demoExecution] hfair [] [] demoMinted rfl with ⟨_, hnone, _⟩ | ⟨_, _, hsupply⟩
  · cases hnone
  · rcases hsupply (by rw [hbefore, hafter]; decide) with hdecided | ⟨k, hdecided, hburn⟩
    · exact hdecided
    · -- the only call that the token can read is a mint
      obtain ⟨_, _, call, _, ⟨_, hreads⟩, _⟩ := hdecided
      obtain ⟨spender, account, amount, rfl, _⟩ := hburn
      simp only [demoSetting] at hreads
      split at hreads <;> cases hreads

end SorobanKit.Multisig
