import SorobanKit.AuctionContract

set_option autoImplicit false

/-!
# What a call does to an English auction

`Move` lists everything a returning call can do to an English auction without an NFT, with
the guards it passed and the effect on the refunds and on the token transfers.
-/
namespace SorobanKit.Auction
open HostBalances HostInteger HostInvocation HostTransfers

section Refunds
variable {s t : State}

theorem setPending_eq (bidder : Address) (amount : ℤ) (s : State) :
    setPending bidder amount s = { s with pending := store s.pending bidder amount } := by
  unfold setPending store
  split <;> rfl

/-- What the highest bid adds to the refunds when it is beaten. -/
def outbid (s : State) (highestBid : ℤ) : ℤ := if s.highestBidder.isSome then highestBid else 0

theorem queueRefund_ok {highestBid : ℤ} (hnonneg : NonnegEntries s.pending) (hbid : 0 ≤ highestBid)
    (h : queueRefund highestBid s = .ok t) :
    t = { s with pending := t.pending } ∧ NonnegEntries t.pending ∧
      total t.pending = total s.pending + outbid s highestBid := by
  unfold queueRefund at h
  split at h
  · next prev hprev =>
    simp only [bind_eq_ok, okOr_eq_ok, checkedAdd_eq_some, pure_eq_ok, setPending_eq] at h
    obtain ⟨_, ⟨_, rfl⟩, rfl⟩ := h
    have hold := hnonneg.entry_nonneg prev
    refine ⟨rfl, hnonneg.store (by unfold pendingOf; omega), ?_⟩
    simp only [total_store, outbid, hprev, Option.isSome_some, if_true, pendingOf]
    omega
  · next hnone =>
    rw [pure_eq_ok] at h
    subst h
    refine ⟨rfl, hnonneg, ?_⟩
    simp only [outbid, hnone, Option.isSome_none, Bool.false_eq_true, if_false, add_zero]

theorem applyCredit_ok {bidder : Address} {amount transferred : ℤ}
    (hnonneg : NonnegEntries s.pending)
    (h : applyCredit bidder amount s = .ok (transferred, t)) :
    t = { s with pending := t.pending } ∧ NonnegEntries t.pending ∧ 0 ≤ transferred ∧
      total t.pending = total s.pending - (amount - transferred) := by
  simp only [applyCredit, bind_eq_ok, okOr_eq_ok, checkedSub_eq_some, pure_eq_ok, Prod.mk.injEq,
    setPending_eq] at h
  obtain ⟨_, ⟨_, rfl⟩, _, ⟨_, rfl⟩, rfl, rfl⟩ := h
  have hcredit : 0 ≤ pendingOf s bidder := hnonneg.entry_nonneg bidder
  refine ⟨rfl, hnonneg.store (by omega), by omega, ?_⟩
  simp only [total_store]
  unfold pendingOf
  omega

end Refunds

/-- The transfer that pays for a bid, unless credit covers all of it. -/
def bidPay (house token bidder : Address) (transferred : ℤ) : List (Transfer Purpose) :=
  if 0 < transferred then [⟨.bid, token, bidder, house, transferred⟩] else []

/-- The guards of `place_bid` and what becomes of the refunds. -/
structure Bids (env : Env) (bidder : Address) (amount transferred : ℤ)
    (pending : Balances Address) (s : State) : Prop where
  positive : 0 < amount
  authorized : bidder ∈ env.auths
  open_now : ∃ deadline, s.deadline = some deadline ∧ env.sequence ≤ deadline
  enough : ∃ highestBid minIncrement startPrice, s.highestBid = some highestBid ∧
    s.minIncrement = some minIncrement ∧ s.startPrice = some startPrice ∧
    (if highestBid < startPrice then startPrice else highestBid + minIncrement) ≤ amount
  refunds : NonnegEntries s.pending → (∀ highestBid, s.highestBid = some highestBid → 0 ≤ highestBid) →
    0 ≤ transferred ∧ NonnegEntries pending ∧
      ∀ highestBid, s.highestBid = some highestBid →
        total pending = total s.pending + outbid s highestBid - (amount - transferred)

inductive Move {house : Address} (i : Invocation house) (s t : State) : Prop where
  | started (hnone : s.seller = none)
  | bought (hdutch : s.dutchConfig ≠ none)
  | raised (bidder token : Address) (amount transferred : ℤ) (pending : Balances Address)
      (hcall : i.call = .bid bidder amount ∨ i.call = .bidWithCredit bidder amount)
      (hbids : Bids i.toEnv bidder amount transferred pending s)
      (htoken : 0 < transferred → s.token = some token)
      (h : t = { s with
        pending := pending, highestBidder := some bidder, highestBid := some amount,
        deadline := t.deadline,
        transfers := s.transfers ++ bidPay house token bidder transferred })
  | boughtNow (bidder token seller : Address) (amount transferred : ℤ)
      (pending : Balances Address)
      (hcall : i.call = .bid bidder amount ∨ i.call = .bidWithCredit bidder amount)
      (hbids : Bids i.toEnv bidder amount transferred pending s)
      (htoken : s.token = some token) (hseller : s.seller = some seller)
      (h : t = { s with
        pending := pending, highestBidder := some bidder, highestBid := some amount,
        settled := some true,
        transfers := s.transfers ++ bidPay house token bidder transferred ++
          [⟨.proceeds, token, house, seller, amount⟩] })
  | unsold (hcall : i.call = .endAuction) (hopen : s.settled = some false)
      (hnobid : ∀ highestBid startPrice, s.highestBid = some highestBid →
        s.startPrice = some startPrice → s.highestBidder = none ∨ highestBid < startPrice)
      (h : t = { s with settled := some true })
  | returned (winner token : Address) (highestBid : ℤ) (hcall : i.call = .endAuction)
      (hopen : s.settled = some false) (hwinner : s.highestBidder = some winner)
      (hbid : s.highestBid = some highestBid) (htoken : s.token = some token)
      (h : t = { s with
        settled := some true,
        transfers := s.transfers ++ [⟨.refund, token, house, winner, highestBid⟩] })
  | sold (winner token seller : Address) (highestBid : ℤ) (hcall : i.call = .endAuction)
      (hopen : s.settled = some false) (hwinner : s.highestBidder = some winner)
      (hbid : s.highestBid = some highestBid) (htoken : s.token = some token)
      (hseller : s.seller = some seller)
      (h : t = { s with
        settled := some true,
        transfers := s.transfers ++ [⟨.proceeds, token, house, seller, highestBid⟩] })
  | owed (winner seller : Address) (highestBid : ℤ) (hcall : i.call = .endAuction)
      (hopen : s.settled = some false) (hwinner : s.highestBidder = some winner)
      (hbid : s.highestBid = some highestBid) (hseller : s.seller = some seller)
      (h : t = { s with
        settled := some true,
        sellerPending := s.sellerPending.insert seller (entry s.sellerPending seller + highestBid) })
  | refunded (bidder token : Address) (hcall : i.call = .withdraw bidder)
      (hauth : bidder ∈ i.auths) (htoken : s.token = some token)
      (h : t = { s with
        pending := s.pending.erase bidder,
        transfers := s.transfers ++ [⟨.refund, token, house, bidder, pendingOf s bidder⟩] })
  | collected (seller token : Address) (hcall : i.call = .withdrawSellerProceeds seller)
      (hauth : seller ∈ i.auths) (htoken : s.token = some token)
      (h : t = { s with
        sellerPending := s.sellerPending.erase seller,
        transfers := s.transfers ++
          [⟨.proceeds, token, house, seller, entry s.sellerPending seller⟩] })
  | cancelled (seller : Address) (auctionIds : List ℕ)
      (hcall : i.call = .cancelAuctionsBatch seller auctionIds)
      (h : t = { s with cancelled := t.cancelled })

section Specs
variable {house : Address} {env : Env} {s t : State}

theorem takeBid_ok {token bidder : Address} {transferred : ℤ}
    (h : takeBid house env token bidder transferred s = .ok t) :
    t = { s with transfers := s.transfers ++ bidPay house token bidder transferred } := by
  unfold takeBid at h
  unfold bidPay
  split at h
  · next hpos =>
    rw [if_pos hpos]
    exact recordTransfer_ok h
  · next hpos =>
    rw [if_neg hpos, List.append_nil]
    exact (pure_eq_ok.mp h).symm

theorem payRoyalty_none {token : Address} {highestBid : ℤ} (hnft : s.nftContract = none) :
    payRoyalty house env token highestBid s = .ok (highestBid, s) := by
  unfold payRoyalty
  rw [hnft]
  rfl

/-- The seller is paid, or the proceeds are kept for them. -/
theorem paySeller_ok {token seller : Address} {proceeds : ℤ}
    (h : paySeller house env token seller proceeds s = .ok t) :
    t = { s with transfers := s.transfers ++ [⟨.proceeds, token, house, seller, proceeds⟩] } ∨
      t = { s with
        sellerPending := s.sellerPending.insert seller (entry s.sellerPending seller + proceeds) } := by
  unfold paySeller tryTransfer at h
  split at h
  · next htry =>
    split at htry
    · cases htry
      exact .inl (pure_eq_ok.mp h).symm
    · cases htry
  · next htry =>
    split at htry
    · cases htry
    · cases htry
      simp only [bind_eq_ok, okOr_eq_ok, checkedAdd_eq_some, pure_eq_ok] at h
      obtain ⟨_, ⟨_, rfl⟩, rfl⟩ := h
      exact .inr rfl

/-- Cancelling one auction many times touches its flag only. -/
theorem cancelEach_ok {seller : Address} {auctionIds : List ℕ}
    (h : auctionIds.foldlM (fun s _ => cancelOne house env seller s) s = .ok t) :
    t = { s with cancelled := t.cancelled } := by
  induction auctionIds generalizing s with
  | nil =>
    rw [List.foldlM_nil, pure_eq_ok] at h
    rw [← h]
  | cons _ rest ih =>
    rw [List.foldlM_cons, bind_eq_ok] at h
    obtain ⟨s₁, hone, h⟩ := h
    simp only [cancelOne, bind_eq_ok, pure_eq_ok] at hone
    obtain ⟨_, _, rfl⟩ := hone
    have hrest := ih h
    exact hrest

theorem extendDeadline_eq (deadline : ℕ) (s : State) :
    extendDeadline env deadline s =
      { s with deadline := (extendDeadline env deadline s).deadline } := by
  unfold extendDeadline
  dsimp only
  split
  · split <;> rfl
  · rfl

theorem minRequired_ok {highestBid minIncrement startPrice least : ℤ}
    (h : minRequired highestBid minIncrement startPrice = .ok least) :
    least = if highestBid < startPrice then startPrice else highestBid + minIncrement := by
  unfold minRequired at h
  split at h
  · next hfirst =>
    rw [if_pos hfirst]
    exact (pure_eq_ok.mp h).symm
  · next hlater =>
    rw [okOr_eq_ok, checkedAdd_eq_some] at h
    rw [if_neg hlater]
    exact h.2.symm

/-- Queueing and credit touch the refunds only, and move what they say. -/
theorem refunds_ok {highestBid amount transferred : ℤ} {bidder : Address} {useCredit : Bool}
    {s₁ s₂ : State} (hamount : 0 < amount) (hqueue : queueRefund highestBid s = .ok s₁)
    (hcredit : requiredTransfer bidder amount useCredit s₁ = .ok (transferred, s₂)) :
    s₂ = { s with pending := s₂.pending } ∧
      (NonnegEntries s.pending → 0 ≤ highestBid →
        0 ≤ transferred ∧ NonnegEntries s₂.pending ∧
          total s₂.pending = total s.pending + outbid s highestBid - (amount - transferred)) := by
  have hs₁ : s₁ = { s with pending := s₁.pending } := by
    unfold queueRefund at hqueue
    split at hqueue
    · simp only [bind_eq_ok, pure_eq_ok, setPending_eq] at hqueue
      obtain ⟨_, _, rfl⟩ := hqueue
      rfl
    · rw [← pure_eq_ok.mp hqueue]
  cases useCredit with
  | false =>
    simp only [requiredTransfer, Bool.false_eq_true, if_false, pure_eq_ok, Prod.mk.injEq]
      at hcredit
    obtain ⟨rfl, rfl⟩ := hcredit
    refine ⟨hs₁, fun hnonneg hbid => ?_⟩
    obtain ⟨_, hnonneg₁, htotal⟩ := queueRefund_ok hnonneg hbid hqueue
    exact ⟨le_of_lt hamount, hnonneg₁, by omega⟩
  | true =>
    simp only [requiredTransfer, if_true] at hcredit
    have hs₂ : s₂ = { s₁ with pending := s₂.pending } := by
      simp only [applyCredit, bind_eq_ok, pure_eq_ok, Prod.mk.injEq, setPending_eq] at hcredit
      obtain ⟨_, _, _, _, _, rfl⟩ := hcredit
      rfl
    refine ⟨by rw [hs₂, hs₁], fun hnonneg hbid => ?_⟩
    obtain ⟨_, hnonneg₁, htotal₁⟩ := queueRefund_ok hnonneg hbid hqueue
    obtain ⟨_, hnonneg₂, hrequired, htotal₂⟩ := applyCredit_ok hnonneg₁ hcredit
    exact ⟨hrequired, hnonneg₂, by omega⟩

end Specs

section Moves
variable {house : Address} {i : Invocation house} {s t : State}

theorem placeBid_move {bidder : Address} {amount : ℤ} {useCredit : Bool}
    (hcall : i.call = .bid bidder amount ∨ i.call = .bidWithCredit bidder amount)
    (h : placeBid house i.toEnv bidder amount useCredit s = .ok t) : Move i s t := by
  simp only [placeBid, bind_eq_ok, rejectIf_eq_ok, getInstance, okOr_eq_ok, requireAuth_eq_ok, not_le,
    not_lt] at h
  obtain ⟨_, hpos, _, _, _, _, deadline, hdeadline, _, hopen, highestBid, hhighest, minIncrement,
    hincrement, startPrice, hprice, least, hrequired, _, henough, _, hauth, s₁, hqueue,
    ⟨transferred, s₂⟩, hcredit, h⟩ := h
  obtain ⟨hs₂, hrefunds⟩ := refunds_ok hpos hqueue hcredit
  have hbids : Bids i.toEnv bidder amount transferred s₂.pending s := by
    refine ⟨hpos, hauth, ⟨deadline, hdeadline, hopen⟩,
      ⟨highestBid, minIncrement, startPrice, hhighest, hincrement, hprice, ?_⟩, fun hnonneg hbid => ?_⟩
    · rw [← minRequired_ok hrequired]
      exact henough
    · obtain ⟨hpay, hnonneg₂, htotal⟩ := hrefunds hnonneg (hbid highestBid hhighest)
      refine ⟨hpay, hnonneg₂, fun bid hbid => ?_⟩
      rw [hhighest] at hbid
      cases hbid
      exact htotal
  rw [hs₂] at h
  split at h
  · simp only [buyItNow, bind_eq_ok, getInstance, okOr_eq_ok, pure_eq_ok] at h
    obtain ⟨seller, hseller, token, htoken, s₃, htake, s₄, hpay, _, _, rfl⟩ := h
    refine .boughtNow bidder token seller amount transferred s₂.pending hcall hbids htoken
      hseller ?_
    rw [recordTransfer_ok hpay, takeBid_ok htake]
  · rw [extendDeadline_eq] at h
    split at h
    · simp only [bind_eq_ok, okOr_eq_ok] at h
      obtain ⟨token, htoken, h⟩ := h
      refine .raised bidder token amount transferred s₂.pending hcall hbids (fun _ => htoken) ?_
      rw [takeBid_ok h]
    · next hnone =>
      rw [pure_eq_ok] at h
      refine .raised bidder house amount transferred s₂.pending hcall hbids
        (fun hsome => absurd hsome hnone) ?_
      rw [bidPay, if_neg hnone, List.append_nil, ← h]

theorem endAuction_move (hnft : s.nftContract = none) (hcall : i.call = .endAuction)
    (h : endAuction house i.toEnv s = .ok t) : Move i s t := by
  simp only [endAuction, bind_eq_ok, rejectIf_eq_ok, getInstance, okOr_eq_ok] at h
  obtain ⟨seller, hseller, _, _, _, _, deadline, _, _, _, settled, hsettled, _, hopen, startPrice,
    hprice, highestBid, hhighest, h⟩ := h
  have hopen : s.settled = some false := by
    rw [hsettled]
    simpa using hopen
  split at h
  · next hfilter =>
    simp only [bind_eq_ok, pure_eq_ok] at h
    obtain ⟨_, _, rfl⟩ := h
    refine .unsold hcall hopen (fun bid price hbid hstart => ?_) rfl
    rw [hhighest] at hbid
    cases hbid
    rw [hprice] at hstart
    cases hstart
    cases hbidder : s.highestBidder with
    | none => exact .inl rfl
    | some winner =>
      rw [hbidder] at hfilter
      simp only [Option.filter_some, decide_eq_true_eq, ite_eq_right_iff, reduceCtorEq,
        imp_false, not_le] at hfilter
      exact .inr hfilter
  · next winner hfilter =>
    have hwinner : s.highestBidder = some winner := (Option.filter_eq_some_iff.mp hfilter).1
    simp only [bind_eq_ok, okOr_eq_ok] at h
    obtain ⟨token, htoken, h⟩ := h
    split at h
    · simp only [bind_eq_ok, pure_eq_ok] at h
      obtain ⟨s₁, hpay, _, _, rfl⟩ := h
      exact .returned winner token highestBid hcall hopen hwinner hhighest htoken
        (recordTransfer_ok hpay)
    · simp only [bind_eq_ok, pure_eq_ok] at h
      obtain ⟨⟨proceeds, s₁⟩, hroyalty, s₂, hpay, _, _, rfl⟩ := h
      rw [payRoyalty_none (by exact hnft), Except.ok.injEq, Prod.mk.injEq] at hroyalty
      obtain ⟨rfl, rfl⟩ := hroyalty
      cases paySeller_ok hpay with
      | inl hpaid =>
        exact .sold winner token seller highestBid hcall hopen hwinner hhighest htoken hseller hpaid
      | inr howed => exact .owed winner seller highestBid hcall hopen hwinner hhighest hseller howed

theorem withdraw_move {bidder : Address} (hcall : i.call = .withdraw bidder)
    (h : withdraw house i.toEnv bidder s = .ok t) : Move i s t := by
  simp only [withdraw, bind_eq_ok, requireAuth_eq_ok, rejectIf_eq_ok, getInstance, okOr_eq_ok] at h
  obtain ⟨_, hauth, _, _, token, htoken, hpay⟩ := h
  exact .refunded bidder token hcall hauth htoken (recordTransfer_ok hpay)

theorem withdrawSellerProceeds_move {seller : Address}
    (hcall : i.call = .withdrawSellerProceeds seller)
    (h : withdrawSellerProceeds house i.toEnv seller s = .ok t) : Move i s t := by
  simp only [withdrawSellerProceeds, bind_eq_ok, requireAuth_eq_ok, rejectIf_eq_ok, getInstance,
    okOr_eq_ok] at h
  obtain ⟨_, hauth, _, _, token, htoken, hpay⟩ := h
  exact .collected seller token hcall hauth htoken (recordTransfer_ok hpay)

theorem cancelAuctionsBatch_move {seller : Address} {auctionIds : List ℕ}
    (hcall : i.call = .cancelAuctionsBatch seller auctionIds)
    (h : cancelAuctionsBatch house i.toEnv seller auctionIds s = .ok t) : Move i s t := by
  simp only [cancelAuctionsBatch, bind_eq_ok] at h
  obtain ⟨_, _, _, _, _, _, _, _, h⟩ := h
  exact .cancelled seller auctionIds hcall (cancelEach_ok h)

/-- Every returning call on an English auction without an NFT is one of the moves. -/
theorem exec_move (hnft : s.nftContract = none) (h : exec i s = .ok t) : Move i s t := by
  unfold exec at h
  cases hcall : i.call with
  | start =>
    simp only [hcall, start, bind_eq_ok, rejectIf_eq_ok] at h
    obtain ⟨_, hnone, _⟩ := h
    exact .started (by simpa using hnone)
  | startDutch =>
    simp only [hcall, startDutch, bind_eq_ok, rejectIf_eq_ok] at h
    obtain ⟨_, hnone, _⟩ := h
    exact .started (by simpa using hnone)
  | buy =>
    simp only [hcall, buy, bind_eq_ok, okOr_eq_ok] at h
    obtain ⟨_, _, cfg, hcfg, _⟩ := h
    exact .bought (by rw [hcfg]; exact Option.some_ne_none cfg)
  | bid bidder amount =>
    rw [hcall] at h
    exact placeBid_move (.inl hcall) h
  | bidWithCredit bidder totalBid =>
    rw [hcall] at h
    exact placeBid_move (.inr hcall) h
  | endAuction =>
    rw [hcall] at h
    exact endAuction_move hnft hcall h
  | withdraw bidder =>
    rw [hcall] at h
    exact withdraw_move hcall h
  | withdrawSellerProceeds seller =>
    rw [hcall] at h
    exact withdrawSellerProceeds_move hcall h
  | cancelAuctionsBatch seller auctionIds =>
    rw [hcall] at h
    exact cancelAuctionsBatch_move hcall h

end Moves

end SorobanKit.Auction
