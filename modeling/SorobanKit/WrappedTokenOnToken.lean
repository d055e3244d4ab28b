import SorobanKit.TokenPayouts
import SorobanKit.WrappedTokenPeg

set_option autoImplicit false

/-!
# The wrapped token over the repository's token

Next to the token of this repository the reserve is a balance in that token's storage. It covers
the wrapped supply, however batches, transfers of wrapped tokens and calls on the underlying token
alternate, and whoever holds wrapped tokens can turn them back into the underlying one as long as
the token lets the contract pay.
-/
namespace SorobanKit.WrappedToken
open CommonMath HostBalances HostInteger HostInvocation HostServers HostTransfers
open HostRuns (Along along_true run_invariant_along run_invariant)

section Client
variable {house : Address}

/-- The underlying token delivers what it accepts to move. -/
def client (house : Address) :
    Client Purpose State (Invocation house BatchCall) (Failure WrappedTokenError) where
  house := house
  exec := execBatch
  log := State.transfers
  context i := i.toContext
  replies i := ⟨fun _ _ => 0, i.accepts, fun _ => true⟩
  answered replies i := { i with
    accepts := replies.accepts
    delivers := fun _ x => x.amount.toNat }

theorem answered_honest (replies : TokenReplies Purpose) (i : Invocation house BatchCall) :
    ((client house).answered replies i).Honest := fun _ _ hnonneg => Int.toNat_of_nonneg hnonneg

variable {env : Env} {s t : State} {user underlying source : Address}
  {recipients : List (Address × ℤ)}

def Env.replies (env : Env) : TokenReplies Purpose := ⟨fun _ _ => 0, env.accepts, fun _ => true⟩

theorem callTransfer_grown {x : Transfer Purpose} (h : callTransfer house env x s = .ok t) :
    Grown env.replies s.transfers t.transfers := by
  obtain ⟨haccepts, rfl⟩ := callTransfer_eq_ok.mp h
  exact .one haccepts

theorem payFee_grown {fee : ℤ} (h : payFee house env underlying source fee s = .ok t) :
    Grown env.replies s.transfers t.transfers := by
  unfold payFee at h
  split at h
  · rw [bind_eq_ok] at h
    obtain ⟨_, _, h⟩ := h
    exact callTransfer_grown h
  · rw [pure_eq_ok] at h
    exact .of_eq (by rw [h])

theorem payAll_grown {xs : List ((Address × ℤ) × ℤ)} {running final : ℤ}
    (h : xs.foldlM (payOne house env underlying) (s, running) = .ok (t, final)) :
    Grown env.replies s.transfers t.transfers := by
  refine (Grown.foldlM (fun acc : State × ℤ => acc.1.transfers) ?_ h :)
  rintro ⟨u, total⟩ x ⟨v, rest⟩ hround
  simp only [payOne, bind_eq_ok, pure_eq_ok, Prod.mk.injEq] at hround
  obtain ⟨_, hpay, _, _, rfl, _⟩ := hround
  exact callTransfer_grown hpay

theorem doWrap_grown (h : doWrap house env user recipients s = .ok t) :
    Grown env.replies s.transfers t.transfers := by
  simp only [doWrap, bind_eq_ok, pure_eq_ok] at h
  obtain ⟨_, _, _, _, split, _, _, _, ⟨_, underlying⟩, _, s₁, hcount, _, _, _, _, s₂, hdeposit, s₃, hfee,
    ⟨s₄, final⟩, hmint, rfl⟩ := h
  obtain ⟨counted, rfl⟩ := countWrapped_ok hcount
  have hminted := mintAll_ok hmint
  subst hminted
  exact ((callTransfer_grown hdeposit).trans (payFee_grown hfee) :)

theorem doUnwrap_grown (h : doUnwrap house env user recipients s = .ok t) :
    Grown env.replies s.transfers t.transfers := by
  simp only [doUnwrap, burn, bind_eq_ok, pure_eq_ok] at h
  obtain ⟨_, _, _, _, split, _, _, _, ⟨_, underlying⟩, _, _, _, _, _, _, ⟨_, _, _, _, rfl⟩, ⟨s₂, final⟩, hpay,
    s₃, hfee, rfl⟩ := h
  exact ((payAll_grown hpay).trans (payFee_grown hfee) :)

theorem execBatch_grown {i : Invocation house BatchCall} (h : execBatch i s = .ok t) :
    Grown i.replies s.transfers t.transfers := by
  unfold execBatch at h
  cases hcall : i.call <;> simp only [hcall] at h
  case doWrap => exact doWrap_grown h
  case doUnwrap => exact doUnwrap_grown h
  -- the other calls make no transfer
  all_goals refine .of_eq ?_
  all_goals
    simp only [transfer, burn, mint, pause, unpause, setWrapPaused, setUnwrapPaused, bind_eq_ok,
      pure_eq_ok] at h
  case transfer =>
    obtain ⟨_, ⟨_, _, _, _, rfl⟩, _, _, rfl⟩ := h
    rfl
  case burn =>
    obtain ⟨_, _, _, _, rfl⟩ := h
    rfl
  case pause | unpause | setWrapPaused | setUnwrapPaused =>
    obtain ⟨_, _, rfl⟩ := h
    rfl

theorem client_lawful (house : Address) : (client house).Lawful fun _ _ => True := by
  intro replies i s t _ h
  have hgrown : Grown ((client house).answered replies i).replies s.transfers t.transfers :=
    execBatch_grown h
  have hsame : replies.accepts = ((client house).answered replies i).replies.accepts := rfl
  exact hgrown.congr hsame

end Client

section Unwrapping
variable {house user underlying source : Address} {env : Env} {s t : State} {ledger : Ledger}
  {recipients : List (Address × ℤ)}

def payout (house underlying : Address) (x : (Address × ℤ) × ℤ) : Transfer Purpose :=
  ⟨.payout, underlying, house, x.1.1, x.2⟩

theorem payAll_of_accepted {xs : List ((Address × ℤ) × ℤ)} {running : ℤ}
    (hnonneg : ∀ x ∈ xs, 0 ≤ x.1.2)
    (haccepted : Accepted env.replies s.transfers (xs.map (payout house underlying)))
    (hrunning : (xs.map fun x => x.1.2).sum ≤ running) (hfits : InI128 running) :
    ∃ final, xs.foldlM (payOne house env underlying) (s, running) =
      .ok (moved house env (xs.map (payout house underlying)) s, final) := by
  induction xs generalizing s running with
  | nil =>
    refine ⟨running, ?_⟩
    rw [List.map_nil, moved_nil, List.foldlM_nil, pure_eq_ok]
  | cons x xs ih =>
    obtain ⟨hamount, hrest⟩ := List.forall_mem_cons.mp hnonneg
    obtain ⟨hfirst, hlater⟩ := haccepted
    rw [List.map_cons, List.sum_cons] at hrunning
    have hamounts : 0 ≤ (xs.map fun x => x.1.2).sum := by
      apply List.sum_nonneg
      intro v hv
      obtain ⟨y, hy, rfl⟩ := List.mem_map.mp hv
      exact hrest y hy
    have hcall : callTransfer house env (payout house underlying x) s =
        .ok (moved house env [payout house underlying x] s) := callTransfer_eq_ok.mpr ⟨hfirst, rfl⟩
    have hnext : InI128 (running - x.1.2) := by
      unfold InI128 at hfits ⊢
      omega
    have hsub : checkedSub running x.1.2 = some (running - x.1.2) :=
      checkedSub_eq_some.mpr ⟨hnext, rfl⟩
    have hround : payOne house env underlying (s, running) x =
        .ok (moved house env [payout house underlying x] s, running - x.1.2) := by
      unfold payOne
      change (callTransfer house env (payout house underlying x) s >>= _) = _
      rw [hcall, ok_bind, hsub]
      rfl
    obtain ⟨final, hall⟩ := ih (s := moved house env [payout house underlying x] s) hrest hlater
      (by omega) hnext
    refine ⟨final, ?_⟩
    rw [List.foldlM_cons, hround, ok_bind, hall, List.map_cons, ← moved_cons]

theorem payFee_of_accepted {fee : ℤ} (hpayee : 0 < fee → s.feeRecipient.isSome)
    (haccepted : Accepted env.replies s.transfers
      (feeTransfers underlying source s.feeRecipient fee)) :
    ∃ t, payFee house env underlying source fee s = .ok t := by
  unfold payFee
  split
  · next hpos =>
    obtain ⟨payee, hsome⟩ := Option.isSome_iff_exists.mp (hpayee hpos)
    simp only [feeTransfers, if_pos hpos, hsome, Option.toList_some, List.map_cons, List.map_nil]
      at haccepted
    rw [hsome]
    exact ⟨_, callTransfer_eq_ok.mpr ⟨haccepted.1, rfl⟩⟩
  · exact ⟨s, rfl⟩

theorem Pegged.unwrap_of_accepted (hs : Pegged house underlying ledger s) {split : Split}
    (hauth : user ∈ env.auths) (hopen : requireUnwrapNotPaused s = .ok ())
    (hsplit : splitBatch s.unwrapFeeBps recipients = .ok split)
    (hheld : split.gross ≤ entry s.holdings user)
    (haccepted : Accepted env.replies s.transfers (payoutTransfers house underlying s recipients)) :
    ∃ t, doUnwrap house env user recipients s = .ok t := by
  obtain ⟨hpayable, rfl⟩ := splitBatch_ok hsplit
  dsimp only at hheld
  have hgross := grossTotal_nonneg hpayable
  have hmine := hs.holdings_nonneg.entry_le_total user
  have hsupply := hs.supply_le
  have hfits := hs.total_fits
  unfold supply at hsupply
  obtain ⟨wrapped, hwrapped⟩ := Option.isSome_iff_exists.mp hs.wrapped_isSome
  have hinstalled : ¬ s.admin.isNone := by simpa using Option.isSome_iff_ne_none.mp hs.installed
  have htokens : loadTokens s = .ok (wrapped, underlying) := by
    unfold loadTokens
    rw [hwrapped, hs.underlying_eq]
    rfl
  have hsub : checkedSub (s.totalWrapped.getD 0) (grossTotal recipients) =
      some (s.totalWrapped.getD 0 - grossTotal recipients) := by
    rw [checkedSub_eq_some]
    unfold InI128 at hfits ⊢
    exact ⟨by omega, rfl⟩
  let burned : State := { s with holdings := credit s.holdings user (-grossTotal recipients) }
  have hburn : burn env user (grossTotal recipients) s = .ok burned := by
    simp only [burn, bind_eq_ok, requireAuth_eq_ok, trapUnless_eq_ok, pure_eq_ok]
    exact ⟨(), hauth, (), ⟨hgross, hheld⟩, rfl⟩
  obtain ⟨hpayouts, hfee⟩ := accepted_append.mp haccepted
  have hmap : (recipients.map fun r => (r, netPart s.unwrapFeeBps r.2)).map (payout house underlying) =
      recipients.map fun r =>
        (⟨.payout, underlying, house, r.1, netPart s.unwrapFeeBps r.2⟩ : Transfer Purpose) := by
    rw [List.map_map]
    rfl
  have hfst : ((recipients.map fun r => (r, netPart s.unwrapFeeBps r.2)).map fun x => x.1.2).sum =
      grossTotal recipients := by
    rw [List.map_map]
    rfl
  have hnonneg : ∀ x ∈ recipients.map (fun r => (r, netPart s.unwrapFeeBps r.2)), 0 ≤ x.1.2 := by
    intro x hx
    obtain ⟨r, hr, rfl⟩ := List.mem_map.mp hx
    exact le_of_lt (hpayable r hr).1
  obtain ⟨final, hpay⟩ : ∃ final, (recipients.map fun r => (r, netPart s.unwrapFeeBps r.2)).foldlM
      (payOne house env underlying) (burned, s.totalWrapped.getD 0) = .ok (_, final) :=
    payAll_of_accepted hnonneg (by rw [hmap]; exact hpayouts) (by rw [hfst]; omega) hfits
  rw [hmap] at hpay
  obtain ⟨t, hlast⟩ : ∃ t, payFee house env underlying house (feeTotal s.unwrapFeeBps recipients)
      (moved house env _ burned) = .ok t :=
    payFee_of_accepted (fun hpos => hs.unwrap_payee (rate_pos_of_feeTotal hpos)) hfee
  refine ⟨{ t with totalWrapped := some (s.totalWrapped.getD 0 - grossTotal recipients) }, ?_⟩
  simp only [doUnwrap, bind_eq_ok]
  refine ⟨(), rejectIf_neg hinstalled, (), hopen, _, hsplit, (), requireAuth_eq_ok.mpr hauth, _,
    htokens, _, okOr_eq_ok.mpr hsub, (), rejectIf_neg (by omega), _, hburn, (_, final), ?_, t,
    hlast, rfl⟩
  dsimp only
  rw [zip_nets]
  exact hpay

theorem payoutTransfers_pos {x : Transfer Purpose} (hpayable : Payable s.unwrapFeeBps recipients)
    (h : x ∈ payoutTransfers house underlying s recipients) : 0 < x.amount := by
  rcases List.mem_append.mp h with h | h
  · obtain ⟨r, hr, rfl⟩ := List.mem_map.mp h
    exact (hpayable r hr).2
  · obtain ⟨hpos, r, _, rfl⟩ := feeTransfers_mem h
    exact hpos

end Unwrapping

section Joint
variable {house : Address} {dt : Token.Deployment}

/-- The contract and the token it wraps, and a call of somebody on one of them. -/
abbrev Joint := State × Token.State
abbrev Act (house : Address) := JointCall (Invocation house BatchCall) Token.Invocation

def jointly (house : Address) (dt : Token.Deployment) : Act house → Joint → Except Unit Joint :=
  jointExec (client house) (Token.bank dt) (Token.exec dt)

/-- No call on the token seizes what the contract holds. -/
def Fair (house : Address) (dt : Token.Deployment) : Joint → Act house → Prop :=
  Token.Fair dt (client house) fun _ _ => True

/-- What the token's storage had when the contract was set up. -/
def openingLedger (dt : Token.Deployment) (b : Token.State) : Ledger := fun token holder =>
  if token = dt.contractAddress then Token.balance b holder else 0

theorem pegged_step {ledger : Ledger} {y z : Joint} {j : Act house}
    (hy : Pegged house dt.contractAddress ledger y.1) (hj : Fair house dt y j)
    (hok : jointly house dt j y = .ok z) : Pegged house dt.contractAddress ledger z.1 := by
  obtain ⟨s, b⟩ := y
  cases j with
  | bank j =>
    obtain ⟨heq, _⟩ := jointExec_bank hok
    rw [heq]
    exact hy
  | client i =>
    obtain ⟨hexec, _⟩ := jointExec_client (client_lawful house) hj.1 hok
    exact execBatch_pegged hy (answered_honest _ i) hexec

/-- What the contract and the token begin with. -/
structure Opening (house : Address) (dt : Token.Deployment) (before : List Token.Invocation)
    (s₀ : State) : Prop where
  signed : ∀ i ∈ before, Token.OnlyTransfers house i
  created : ∃ env admin wrappedToken cap wrapFeeBps unwrapFeeBps feeRecipient minAmount,
    initializeWrapper env admin wrappedToken dt.contractAddress cap wrapFeeBps unwrapFeeBps
      feeRecipient minAmount
      { reserve := Token.balance (Token.run dt Token.State.empty before) house } = .ok s₀

variable {before : List Token.Invocation} {s₀ : State} {js : List (Act house)}

theorem joint_pegged (hopening : Opening house dt before s₀) {y : Joint}
    (hfair : Along (jointly house dt) (Fair house dt)
      (s₀, Token.run dt Token.State.empty before) js)
    (hy : HostRuns.run (jointly house dt) (s₀, Token.run dt Token.State.empty before) js = y) :
    Pegged house dt.contractAddress (openingLedger dt (Token.run dt Token.State.empty before)) y.1 ∧
      y.1.totalWrapped.getD 0 ≤ Token.balance y.2 house := by
  obtain ⟨env, admin, wrappedToken, cap, wrapFeeBps, unwrapFeeBps, feeRecipient, minAmount, hinit⟩ :=
    hopening.created
  have hledger : openingLedger dt (Token.run dt Token.State.empty before) dt.contractAddress house =
      Token.balance (Token.run dt Token.State.empty before) house := if_pos rfl
  have hempty : s₀.transfers = [] := by
    simp only [initializeWrapper, bind_eq_ok, pure_eq_ok] at hinit
    obtain ⟨_, _, _, _, _, _, _, _, _, _, _, _, rfl⟩ := hinit
    rfl
  have hstart : Pegged house dt.contractAddress
      (openingLedger dt (Token.run dt Token.State.empty before)) s₀ := by
    rw [← hledger] at hinit
    exact initializeWrapper_pegged (by rw [hledger]; exact Token.run_nonneg dt before house) hinit
  have hpegged : Pegged house dt.contractAddress
      (openingLedger dt (Token.run dt Token.State.empty before)) y.1 := by
    rw [← hy]
    exact run_invariant_along (I := fun y : Joint => Pegged house dt.contractAddress _ y.1)
      (fun _ _ _ hs hj hok => pegged_step hs hj hok) hstart hfair
  have hgained : Token.balance (Token.run dt Token.State.empty before) house +
      gain dt.contractAddress house y.1.transfers ≤ Token.balance y.2 house :=
    Token.house_gains (client_lawful house) dt (Token.run_unapproved hopening.signed) hempty hfair hy
  refine ⟨hpegged, ?_⟩
  have htotal := hpegged.total_le
  have hreserve := hpegged.reserve_eq
  rw [replay_eq_gain, hledger] at hreserve
  omega

/-- What an unwrapping does to the wrapped tokens and to the balances of the token. -/
structure Redeemed (house : Address) (dt : Token.Deployment) (user : Address) (gross : ℤ)
    (payouts : List (Transfer Purpose)) (y z : Joint) : Prop where
  burned : entry z.1.holdings user = entry y.1.holdings user - gross
  supply : supply z.1 = supply y.1 - gross
  paid : ∀ holder, Token.balance z.2 holder =
    Token.balance y.2 holder + gain dt.contractAddress holder payouts

theorem redeem {ledger : Ledger} {s : State} {b : Token.State} {i : Invocation house BatchCall}
    {user : Address} {recipients : List (Address × ℤ)} {split : Split}
    (hpegged : Pegged house dt.contractAddress ledger s)
    (hcovered : s.totalWrapped.getD 0 ≤ Token.balance b house)
    (hsound : Token.Fits b ∧ NonnegEntries b.balance) (hcall : i.call = .doUnwrap user recipients)
    (hauth : user ∈ i.auths) (hopen : requireUnwrapNotPaused s = .ok ())
    (hsplit : splitBatch s.unwrapFeeBps recipients = .ok split)
    (hheld : split.gross ≤ entry s.holdings user) (hgates : Token.PaysFrom dt i.sequence house b)
    (hroom : ∀ x ∈ payoutTransfers house dt.contractAddress s recipients,
      InI128 (Token.balance b x.target + split.gross)) :
    ∃ z, jointly house dt (.client i) (s, b) = .ok z ∧ Redeemed house dt user split.gross
      (payoutTransfers house dt.contractAddress s recipients) (s, b) z := by
  obtain ⟨hpayable, hparts⟩ := splitBatch_ok hsplit
  have hgross : split.gross = grossTotal recipients := by rw [hparts]
  have hsum : ((payoutTransfers house dt.contractAddress s recipients).map Transfer.amount).sum =
      split.gross := by
    rw [hgross]
    exact payoutTransfers_sum hpayable fun hpos => hpegged.unwrap_payee (rate_pos_of_feeTotal hpos)
  have hmine := hpegged.holdings_nonneg.entry_le_total user
  have hsupply := hpegged.supply_le
  unfold WrappedToken.supply at hsupply
  -- the token makes all the payments, so it replies that it would
  have htokens : ∀ x ∈ payoutTransfers house dt.contractAddress s recipients,
      x.token = (Token.bank dt).address := fun x hx => (payoutTransfers_mem hpayable hx).1
  obtain ⟨c, hc⟩ : ∃ c, HostServers.settle (Token.bank dt) house i.toContext b
      (payoutTransfers house dt.contractAddress s recipients) = some c := by
    refine Token.settle_succeeds hgates hsound (fun x hx => ?_) (by omega) (by rw [hsum]; exact hroom)
    obtain ⟨htoken, hsource, _⟩ := payoutTransfers_mem hpayable hx
    exact ⟨htoken, hsource, payoutTransfers_pos hpayable hx⟩
  have haccepted : Accepted (bankReplies (Token.bank dt) house i.toContext s.transfers
      ((client house).replies i) b) (s.transfers ++ [])
      (payoutTransfers house dt.contractAddress s recipients) := accepted_of_settle htokens hc
  rw [List.append_nil] at haccepted
  -- with these replies the contract returns
  let answered : Invocation house BatchCall := answers (client house) (Token.bank dt) i s b
  have hreplies : Accepted answered.replies s.transfers
      (payoutTransfers house dt.contractAddress s recipients) := by
    have hsame : answered.replies.accepts = (bankReplies (Token.bank dt) house i.toContext s.transfers
      ((client house).replies i) b).accepts := rfl
    exact haccepted.congr hsame
  obtain ⟨t, ht⟩ : ∃ t, doUnwrap house answered.toEnv user recipients s = .ok t :=
    hpegged.unwrap_of_accepted hauth hopen hsplit hheld hreplies
  have hexec : execBatch answered s = .ok t := by
    have hsame : answered.call = .doUnwrap user recipients := hcall
    unfold execBatch
    rw [hsame]
    exact ht
  obtain ⟨c', hok⟩ : ∃ c', jointly house dt (.client i) (s, b) = .ok (t, c') :=
    (jointExec_client_ok_iff (client_lawful house) trivial).mpr hexec
  obtain ⟨_, new, hlog, hsettle⟩ := jointExec_client (client_lawful house) trivial hok
  obtain ⟨other, hdone⟩ := doUnwrap_ok ht
  obtain rfl : other = dt.contractAddress :=
    Option.some.inj (hdone.loaded.symm.trans hpegged.underlying_eq)
  have hafter := hdone.result
  have hmade : t.transfers = s.transfers ++ payoutTransfers house dt.contractAddress s recipients := by
    rw [hafter]
    rfl
  obtain rfl : payoutTransfers house dt.contractAddress s recipients = new :=
    List.append_cancel_left (hmade.symm.trans hlog)
  have hholdings : t.holdings = credit s.holdings user (-split.gross) := by
    rw [hafter, hgross]
  refine ⟨(t, c'), hok, ?_, ?_, fun holder => settle_holds (Token.bank_exact dt) hsettle holder⟩
  · dsimp only
    rw [hholdings, entry_credit, if_pos rfl]
    omega
  · dsimp only [WrappedToken.supply]
    rw [hholdings, total_credit]
    omega

end Joint

/-- In every joint run the token's storage has for the contract at least what it tracks, and it
    tracks at least what it minted. -/
theorem wrapped_backed_by_token (house : Address) (dt : Token.Deployment)
    (before : List Token.Invocation) (s₀ : State) (hopening : Opening house dt before s₀)
    (js : List (Act house))
    (hfair : Along (jointly house dt) (Fair house dt)
      (s₀, Token.run dt Token.State.empty before) js)
    (y : Joint)
    (hy : HostRuns.run (jointly house dt) (s₀, Token.run dt Token.State.empty before) js = y) :
    supply y.1 ≤ y.1.totalWrapped.getD 0 ∧ y.1.totalWrapped.getD 0 ≤ Token.balance y.2 house := by
  obtain ⟨hpegged, hcovered⟩ := joint_pegged hopening hfair hy
  exact ⟨hpegged.supply_le, hcovered⟩

def demoBank : Token.Deployment := { Token.demoDeployment with contractAddress := demoUnderlying }

def demoIssued : List Token.Invocation :=
  [{ sequence := 1, auths := [demoAdmin], call := .initializeToken demoAdmin "Demo" "DMO" 7 none },
    { sequence := 2, auths := [demoAdmin], call := .mint demoAlice 10000 }]

/-- Alice wraps, sends on the token, and sends wrapped tokens; the replies are the token's own. -/
def demoActs : List (Act demoHouse) :=
  [.client (demoInvoke (.doWrap demoAlice [(demoAlice, 1000), (demoBob, 77), (demoHouse, 100)])),
    .bank { sequence := 6, auths := [demoAlice], call := .transfer demoAlice demoBob 30 },
    .client (demoInvoke (.transfer demoAlice demoBob 300))]

theorem demoOpening : Opening demoHouse demoBank demoIssued demoInstalled where
  signed i hi := by
    simp only [demoIssued, List.mem_cons, List.not_mem_nil, or_false] at hi
    rcases hi with rfl | rfl <;> exact ⟨by decide, fun hauth => absurd hauth (by decide)⟩
  created := ⟨demoEnv 1, demoAdmin, demoWrapped, none, some 250, some 100, some demoHouse, none, rfl⟩

theorem demoActs_fair : Along (jointly demoHouse demoBank) (Fair demoHouse demoBank)
    (demoInstalled, Token.run demoBank Token.State.empty demoIssued) demoActs :=
  ⟨⟨trivial, by decide, by decide⟩, ⟨by decide, by decide, rfl⟩, ⟨trivial, by decide, by decide⟩,
    trivial⟩

theorem wrapped_backed_by_token_demo :
    let y := HostRuns.run (jointly demoHouse demoBank)
      (demoInstalled, Token.run demoBank Token.State.empty demoIssued) demoActs
    supply y.1 ≤ y.1.totalWrapped.getD 0 ∧ y.1.totalWrapped.getD 0 ≤ Token.balance y.2 demoHouse ∧
      supply y.1 = 1149 ∧ Token.balance y.2 demoHouse = 1177 := by
  obtain ⟨hsupply, htotal⟩ := wrapped_backed_by_token demoHouse demoBank demoIssued demoInstalled
    demoOpening demoActs demoActs_fair _ rfl
  exact ⟨hsupply, htotal, by decide +kernel, by decide +kernel⟩

/-- In every joint run whoever holds the gross amount of a valid request unwraps it by one call,
    unless the token itself stops a payment: the wrapped tokens are burned, and in the token the
    balances change by exactly the net amounts to the recipients and the fee. -/
theorem unwrapping_reaches_recipients (house : Address) (dt : Token.Deployment)
    (before : List Token.Invocation) (s₀ : State) (hopening : Opening house dt before s₀)
    (js : List (Act house))
    (hfair : Along (jointly house dt) (Fair house dt)
      (s₀, Token.run dt Token.State.empty before) js)
    (y : Joint)
    (hy : HostRuns.run (jointly house dt) (s₀, Token.run dt Token.State.empty before) js = y)
    (i : Invocation house BatchCall) (user : Address) (recipients : List (Address × ℤ)) (split : Split)
    (hcall : i.call = .doUnwrap user recipients) (hauth : user ∈ i.auths)
    (hopen : requireUnwrapNotPaused y.1 = .ok ())
    (hsplit : splitBatch y.1.unwrapFeeBps recipients = .ok split)
    (hheld : split.gross ≤ entry y.1.holdings user)
    (hgates : Token.PaysFrom dt i.sequence house y.2)
    (hroom : ∀ x ∈ payoutTransfers house dt.contractAddress y.1 recipients,
      InI128 (Token.balance y.2 x.target + split.gross)) :
    ∃ z, jointly house dt (.client i) y = .ok z ∧ Redeemed house dt user split.gross
      (payoutTransfers house dt.contractAddress y.1 recipients) y z := by
  obtain ⟨hpegged, hcovered⟩ := joint_pegged hopening hfair hy
  have hsound := Token.joint_sound (client_lawful house) dt ⟨Token.run_fits dt before,
    run_invariant (fun _ _ _ hs h => Token.nonneg_step hs h) nonneg_empty before⟩ hfair hy
  exact redeem hpegged hcovered hsound hcall hauth hopen hsplit hheld hgates hroom

/-- Alice unwraps for Bob and for the contract itself. -/
def demoRedeem : Invocation demoHouse BatchCall :=
  demoInvoke (.doUnwrap demoAlice [(demoBob, 500), (demoHouse, 175)])

theorem unwrapping_reaches_recipients_demo :
    ∃ z, jointly demoHouse demoBank (.client demoRedeem)
        (HostRuns.run (jointly demoHouse demoBank)
          (demoInstalled, Token.run demoBank Token.State.empty demoIssued) demoActs) = .ok z ∧
      entry z.1.holdings demoAlice = 0 ∧ Token.balance z.2 demoBob = 525 := by
  have hpaid := unwrapping_reaches_recipients demoHouse demoBank demoIssued demoInstalled demoOpening
    demoActs demoActs_fair _ rfl demoRedeem demoAlice [(demoBob, 500), (demoHouse, 175)]
    ⟨675, 6, [495, 174]⟩ rfl (by decide) (by decide +kernel) (by decide +kernel) (by decide +kernel)
    ⟨⟨by decide +kernel, by decide +kernel, by decide +kernel⟩, fun lockLedger hlock => ?_⟩
    (by decide +kernel)
  · obtain ⟨z, hok, hredeemed⟩ := hpaid
    exact ⟨z, hok, hredeemed.burned.trans (by decide +kernel),
      (hredeemed.paid demoBob).trans (by decide +kernel)⟩
  · have hnone : (HostRuns.run (jointly demoHouse demoBank)
        (demoInstalled, Token.run demoBank Token.State.empty demoIssued) demoActs).2.transferLock
          demoHouse = none := by decide +kernel
    cases hnone.symm.trans hlock

end SorobanKit.WrappedToken
