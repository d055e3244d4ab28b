import SorobanKit.EscrowOnToken
import SorobanKit.EscrowRefund
import SorobanKit.TokenPayouts

set_option autoImplicit false

/-!
# The refund next to the repository's token

The escrow asks the token for a transfer that the token may refuse: when it is paused, when the
escrow's address is frozen, blacklisted or locked, or when the buyer's balance would not fit. As
the amount is covered, nothing else stands between the buyer and the refund.
-/
namespace SorobanKit.Escrow
open HostBalances HostInteger HostInvocation HostRuns HostServers HostTransfers Deal

section Transfer
variable {dt : Token.Deployment} {ctx : Context} {source target : Address} {amount : ℤ}
  {b : Token.State}

/-- Balances of a token used from the start: they fit and none is negative. -/
def Sound (b : Token.State) : Prop := Token.Fits b ∧ NonnegEntries b.balance

/-- The gates the token puts before a transfer. -/
structure Payable (dt : Token.Deployment) (sequence : ℕ) (source target : Address) (amount : ℤ)
    (b : Token.State) : Prop where
  spendable : Token.Spendable dt source b
  unlocked : ∀ lockLedger, b.transferLock source = some lockLedger → lockLedger < sequence
  fits : InI128 (Token.balance b target + amount)

theorem tokenTransfer_of_payable (hb : Sound b) (hsigned : source ∈ ctx.auths) (hpos : 0 < amount)
    (hcovered : amount ≤ Token.balance b source)
    (h : Payable dt ctx.sequence source target amount b) :
    ∃ c, Token.tokenTransfer dt ctx source target amount b = some c :=
  Token.tokenTransfer_succeeds ⟨h.spendable, h.unlocked⟩ hsigned (hb.1.balances source) hpos hcovered
    (hb.2.entry_nonneg target) h.fits

end Transfer

section Refund
variable {d : Deployment} {dt : Token.Deployment} {s t : State} {D : Deal} {i : Invocation}

/-- The one payment of a refund. -/
def refundOf (d : Deployment) (D : Deal) : Transfer Purpose :=
  ⟨.refund, D.token, d.contractAddress, D.buyer, D.amount⟩

def afterRefund (d : Deployment) (D : Deal) (s : State) : State :=
  { s with
    state := some .refunded, amount := some 0, locked := some false,
    transfers := s.transfers ++ [refundOf d D] }

theorem requestPartialRefund_succeeds {env : Env} (hs : Represents s D) (hD : Custody D)
    (hlock : s.locked.getD false = false) (hfunded : D.state = .funded) (hpos : 0 < D.amount)
    (hrunning : ¬ (d.pausable ∧ s.paused.getD false)) (hauth : D.buyer ∈ env.auths)
    (haccepts : env.tokens.accepts s.transfers (refundOf d D)) :
    requestPartialRefund d env s = .ok (afterRefund d D s) := by
  have hstages : s.milestones = none := by rw [hs.milestones, hD.schedule, Option.map_none]
  have hstate : requireState .funded s = .ok () := by rw [requireState_eq_ok, hs.state, hfunded]
  simp only [requestPartialRefund, refundToBuyer, refundToBuyerWithState, syncDisputableAmount,
    bind_eq_ok, hs.getBuyer, hs.getAmount, hstate, requireNotPaused, rejectIf_eq_ok,
    requireAuth_eq_ok, hstages, Except.ok.injEq, exists_eq_left', pure_eq_ok, not_le, hpos,
    exists_const, true_and]
  refine ⟨hrunning, hauth, ?_⟩
  simp only [↓reduceIte, bind_eq_ok, acquireLock_eq_ok, transferToken, unwrap_eq_ok,
    callTransfer_eq_ok, pure_eq_ok]
  refine ⟨_, ⟨hlock, rfl⟩, _, ⟨D.token, hs.token, haccepts, rfl⟩, ?_⟩
  simp only [releaseLock, markAllMilestonesReleased, afterRefund, refundOf, hstages, Option.map_none]

/-- What the refund needs of both contracts besides the gates. -/
structure Refundable (y : Joint) : Prop where
  ready : Ready y.1
  sound : Sound y.2

theorem sound_exec {j : Token.Invocation} {b c : Token.State} (hb : Sound b)
    (h : Token.exec dt j b = .ok c) : Sound c :=
  ⟨Token.fits_step hb.1 h, Token.nonneg_step hb.2 h⟩

theorem refundable_step (hkeep : d.settlement.KeepsTerms) (hfree : d.settlement.FreesLock)
    {y z : Joint} {j : Act} (hy : Refundable y) (hj : Fair d dt y j)
    (hok : jointly d dt j y = .ok z) : Refundable z := by
  obtain ⟨s, b⟩ := y
  cases j with
  | bank j =>
    obtain ⟨heq, hexec⟩ := jointExec_bank hok
    refine ⟨?_, sound_exec hy.sound hexec⟩
    rw [heq]
    exact hy.ready
  | client i =>
    obtain ⟨hexec, new, _, hsettle⟩ := jointExec_client (client_lawful d) hj.1 hok
    obtain ⟨D, hD⟩ := hy.ready.deal
    obtain ⟨hdeal, hkept⟩ := exec_kept hkeep hfree hD hexec
    refine ⟨hy.ready.kept hdeal hkept, settle_keeps (fun x b c hb h => ?_) hy.sound hsettle⟩
    exact sound_exec hb (Token.tokenTransfer_eq_some.mp h)

theorem bankReplies_first {past : List (Transfer Purpose)} {others : TokenReplies Purpose}
    {ctx : Context} {x : Transfer Purpose} {b c : Token.State} (htoken : x.token = dt.contractAddress)
    (h : Token.tokenTransfer dt (signing d.contractAddress ctx x) x.source x.target x.amount b =
      some c) :
    (bankReplies (Token.bank dt) d.contractAddress ctx past others b).accepts past x := by
  have hbank : x.token = (Token.bank dt).address := htoken
  have hone : HostServers.settle (Token.bank dt) d.contractAddress ctx b [x] = some c := by
    rw [settle_one, settleOne, if_pos hbank]
    exact h
  simp only [bankReplies]
  rw [if_pos hbank, List.drop_length, List.nil_append, hone]
  rfl

end Refund

/-- In every joint run the buyer of a funded escrow that is not paused gets the whole amount back
    by one call, unless the token itself stops the transfer: the buyer's balance in the token rises
    by the amount and the escrow's falls by it. -/
theorem refund_reaches_buyer (d : Deployment) (dt : Token.Deployment)
    (hkeep : d.settlement.KeepsTerms) (hfree : d.settlement.FreesLock)
    (before : List Token.Invocation)
    (hbefore : ∀ i ∈ before, Token.OnlyTransfers d.contractAddress i) (i₀ : Invocation) (s₀ : State)
    (hsingle : i₀.call.isSingleToken) (hcreate : exec d i₀ State.empty = .ok s₀)
    (htoken : s₀.tokenContract = some dt.contractAddress) (js : List Act)
    (hfair : Along (jointly d dt) (Fair d dt) (s₀, Token.run dt Token.State.empty before) js)
    (y : Joint) (hy : HostRuns.run (jointly d dt) (s₀, Token.run dt Token.State.empty before) js = y)
    (i : Invocation) (hcall : i.call = .requestPartialRefund) (buyer : Address) (amount : ℤ)
    (hbuyer : y.1.buyer = some buyer) (hauth : buyer ∈ i.auths) (hself : d.contractAddress ∉ i.auths)
    (hfunded : y.1.state = some .funded) (hamount : y.1.amount = some amount) (hpos : 0 < amount)
    (hrunning : ¬ (d.pausable ∧ y.1.paused.getD false))
    (hgates : Payable dt i.sequence d.contractAddress buyer amount y.2) :
    ∃ z, jointly d dt (.client i) y = .ok z ∧ z.1.state = some .refunded ∧ z.1.amount = some 0 ∧
      Token.balance z.2 buyer = Token.balance y.2 buyer + amount ∧
      Token.balance z.2 d.contractAddress = Token.balance y.2 d.contractAddress - amount := by
  subst hy
  have hinit : i₀.call.isInitialize := by
    cases hc : i₀.call <;> rw [hc] at hsingle <;> first | rfl | cases hsingle
  have hstart : Refundable (s₀, Token.run dt Token.State.empty before) :=
    ⟨exec_ready hinit hcreate, Token.run_fits dt before,
      run_invariant (fun _ _ _ hs h => Token.nonneg_step hs h) nonneg_empty before⟩
  have hrefundable := run_invariant_along (I := Refundable)
    (fun _ _ _ hy hj hok => refundable_step hkeep hfree hy hj hok) hstart hfair
  obtain ⟨D, hrep, hD, hsame, hcovered⟩ := joint_books hbefore hsingle hcreate htoken hfair
  generalize HostRuns.run (jointly d dt) (s₀, Token.run dt Token.State.empty before) js = y at *
  obtain ⟨s, b⟩ := y
  dsimp only at hbuyer hfunded hamount hrunning hgates hrep hcovered ⊢
  obtain rfl : D.buyer = buyer := Option.some.inj (hrep.buyer.symm.trans hbuyer)
  obtain rfl : D.amount = amount := Option.some.inj (hrep.amount.symm.trans hamount)
  have hstate : D.state = .funded := Option.some.inj (hrep.state.symm.trans hfunded)
  have hne : d.contractAddress ≠ D.buyer := by
    intro heq
    rw [heq] at hself
    exact hself hauth
  -- the token makes the payment
  have hsigned : d.contractAddress ∈ (signing d.contractAddress i.toContext (refundOf d D)).auths := by
    simp [signing, refundOf]
  obtain ⟨c, hc⟩ := tokenTransfer_of_payable hrefundable.sound hsigned hpos
    (hcovered (by rw [hstate]; rfl)) hgates
  have hexec : (client d).exec (answers (client d) (Token.bank dt) i s b) s =
      .ok (afterRefund d D s) := by
    change exec d _ s = _
    simp only [exec, answers, client, hcall]
    exact requestPartialRefund_succeeds hrep hD hrefundable.ready.lock hstate hpos hrunning hauth
      (bankReplies_first hsame hc)
  have hnone : NoSettle d s (answers (client d) (Token.bank dt) i s b) := by
    simp only [NoSettle, settleVerdict, answers, client, hcall]
  have hreturns : ∃ b', jointly d dt (.client i) (s, b) = .ok (afterRefund d D s, b') :=
    (jointExec_client_ok_iff (client_lawful d) hnone).mpr hexec
  obtain ⟨b', hok⟩ := hreturns
  obtain ⟨_, new, hlog, hsettle⟩ := jointExec_client (client_lawful d) hnone hok
  obtain rfl : [refundOf d D] = new := List.append_cancel_left hlog
  have hholds := fun holder => settle_holds (Token.bank_exact dt) hsettle holder
  have hgainBuyer : gain dt.contractAddress D.buyer [refundOf d D] = D.amount := by
    rw [refundOf, hsame]
    exact gain_incoming _ _ hne
  have hgainSelf : gain dt.contractAddress d.contractAddress [refundOf d D] = -D.amount := by
    rw [refundOf, hsame]
    exact gain_outgoing _ _ (Ne.symm hne)
  refine ⟨(afterRefund d D s, b'), hok, rfl, rfl, ?_, ?_⟩
  · have hpaid := hholds D.buyer
    change Token.balance b' D.buyer = Token.balance b D.buyer + gain dt.contractAddress _ _ at hpaid
    rw [hpaid, hgainBuyer]
  · have hpaid := hholds d.contractAddress
    change Token.balance b' d.contractAddress =
      Token.balance b d.contractAddress + gain dt.contractAddress _ _ at hpaid
    rw [hpaid, hgainSelf]
    omega

def demoReclaim : Invocation := demoCall [demoBuyer] .requestPartialRefund

theorem refund_reaches_buyer_demo :
    ∃ z, jointly demoDeployment demoServer (.client demoReclaim)
        (HostRuns.run (jointly demoDeployment demoServer)
          (demoSingleState, Token.run demoServer Token.State.empty demoIssued) demoJoint) = .ok z ∧
      z.1.state = some .refunded ∧ Token.balance z.2 demoBuyer = 80 ∧
      Token.balance z.2 demoSelf = 0 := by
  have hpaid := refund_reaches_buyer demoDeployment demoServer demoSettlement_keepsTerms
    demoSettlement_freesLock demoIssued demoIssued_signed demoSingle demoSingleState rfl rfl rfl demoJoint
    ⟨⟨rfl, by decide, by decide⟩, ⟨by decide, by decide, rfl⟩, ⟨by decide, by decide, rfl⟩,
      ⟨rfl, by decide, by decide⟩, trivial⟩ _ rfl demoReclaim rfl demoBuyer 60 (by decide +kernel)
    (by decide) (by decide) (by decide +kernel) (by decide +kernel) (by decide) (by decide +kernel)
    ⟨⟨by decide +kernel, by decide +kernel, by decide +kernel⟩, fun lockLedger hlock => ?_, by decide +kernel⟩
  · obtain ⟨z, hok, hstate, _, hbuyer, hself⟩ := hpaid
    refine ⟨z, hok, hstate, hbuyer.trans (by decide +kernel), hself.trans (by decide +kernel)⟩
  · have hnone : (HostRuns.run (jointly demoDeployment demoServer)
        (demoSingleState, Token.run demoServer Token.State.empty demoIssued) demoJoint).2.transferLock
          demoSelf = none := by decide +kernel
    cases hnone.symm.trans hlock

end SorobanKit.Escrow
