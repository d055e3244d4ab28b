import SorobanKit.AuctionBidding

set_option autoImplicit false

/-!
# Auctions of an NFT

An auction may hold an NFT for its seller: `start` pulls it in, and whatever ends the auction sends
it out. `nftCalls` are the transfers a call asks the collection for, and `custodyExec` runs the
auction next to a collection with a state of its own, interleaved with direct calls on that
collection by anybody.
-/
namespace SorobanKit.Auction
open HostBalances HostInteger HostInvocation HostRuns HostTransfers

/-- The item, if there is one, from the auction to `target`. -/
def release (house : Address) (s : State) (target : Address) : List NftTransfer :=
  match s.nftContract, s.nftTokenId with
  | some contract, some id => [⟨contract, house, target, id⟩]
  | _, _ => []

def escrow (house seller : Address) (nftContract : Option Address) (tokenId : Option ℕ) :
    List NftTransfer :=
  match nftContract, tokenId with
  | some contract, some id => [⟨contract, seller, house, id⟩]
  | _, _ => []

/-- The bidder who wins, if the highest bid is one and reaches the reserve. -/
def winnerOf (s : State) : Option Address :=
  (s.highestBidder.filter fun _ => decide (s.startPrice.getD 0 ≤ s.highestBid.getD 0)).filter
    fun _ => decide (∀ reserve ∈ s.reservePrice, reserve ≤ s.highestBid.getD 0)

section Calls
variable {house : Address}

def nftCalls (i : Invocation house) (s : State) : List NftTransfer :=
  match i.call with
  | .start seller _ _ _ _ _ _ _ _ _ _ nftContract tokenId => escrow house seller nftContract tokenId
  | .startDutch seller _ _ _ _ _ nftContract tokenId => escrow house seller nftContract tokenId
  | .buy buyer _ => release house s buyer
  | .bid bidder amount => if ∃ price ∈ s.buyItNowPrice, price ≤ amount then release house s bidder else []
  | .bidWithCredit bidder totalBid =>
    if ∃ price ∈ s.buyItNowPrice, price ≤ totalBid then release house s bidder else []
  | .endAuction => ((winnerOf s).or s.seller).toList.flatMap (release house s)
  | .cancelAuctionsBatch seller auctionIds => auctionIds.flatMap fun _ => release house s seller
  | .withdraw _ | .withdrawSellerProceeds _ => []

/-- The same call, with a collection that replies `accepts`. -/
def replying (accepts : NftTransfer → Bool) (i : Invocation house) : Invocation house :=
  { i with nftAccepts := accepts }

end Calls

section Asks
variable {house : Address} {env : Env} {s t : State}

theorem releaseNft_eq_ok {target : Address} :
    releaseNft house env target s = .ok () ↔ ∀ x ∈ release house s target, env.nftAccepts x := by
  unfold releaseNft release
  cases s.nftContract with
  | none => simp
  | some contract =>
    cases s.nftTokenId with
    | none => simp
    | some id => simp

/-- `start` leaves the item with the auction, as it was told. -/
theorem escrowNft_ok {seller : Address} {nftContract : Option Address} {tokenId : Option ℕ}
    (hnone : s.nftContract = none ∧ s.nftTokenId = none)
    (hparams : validateNftParams nftContract tokenId = .ok ())
    (h : escrowNft house env seller nftContract tokenId s = .ok t) :
    (∀ x ∈ escrow house seller nftContract tokenId, env.nftAccepts x) ∧
      t = { s with nftContract := nftContract, nftTokenId := tokenId } := by
  rw [validateNftParams, rejectIf_eq_ok, not_not] at hparams
  unfold escrowNft at h
  unfold escrow
  cases nftContract with
  | none =>
    cases tokenId with
    | none =>
      rw [pure_eq_ok] at h
      subst h
      obtain ⟨hcontract, hid⟩ := hnone
      refine ⟨by simp, ?_⟩
      rw [← hcontract, ← hid]
    | some id => simp at hparams
  | some contract =>
    cases tokenId with
    | none => simp at hparams
    | some id =>
      simp only [bind_eq_ok, trapUnless_eq_ok, pure_eq_ok] at h
      obtain ⟨_, haccepts, rfl⟩ := h
      exact ⟨by simpa using haccepts, rfl⟩

/-- What no call changes after the start. -/
structure Fixed (s t : State) : Prop where
  seller : t.seller = s.seller
  token : t.token = s.token
  nftContract : t.nftContract = s.nftContract
  nftTokenId : t.nftTokenId = s.nftTokenId
  dutchConfig : t.dutchConfig = s.dutchConfig
  reservePrice : t.reservePrice = s.reservePrice
  startPrice : t.startPrice = s.startPrice

theorem Fixed.release {target : Address} (h : Fixed s t) :
    Auction.release house t target = Auction.release house s target := by
  unfold Auction.release
  rw [h.nftContract, h.nftTokenId]

end Asks

section Specs
variable {house : Address} {env : Env} {s t : State}

/-- A call that neither settles nor cancels. -/
structure Passes (s t : State) : Prop extends Fixed s t where
  settled : t.settled = s.settled
  cancelled : t.cancelled = s.cancelled

theorem Passes.refl (s : State) : Passes s s := ⟨⟨rfl, rfl, rfl, rfl, rfl, rfl, rfl⟩, rfl, rfl⟩

theorem Passes.trans {u : State} (h : Passes s t) (h' : Passes t u) : Passes s u where
  seller := h'.seller.trans h.seller
  token := h'.token.trans h.token
  nftContract := h'.nftContract.trans h.nftContract
  nftTokenId := h'.nftTokenId.trans h.nftTokenId
  dutchConfig := h'.dutchConfig.trans h.dutchConfig
  reservePrice := h'.reservePrice.trans h.reservePrice
  startPrice := h'.startPrice.trans h.startPrice
  settled := h'.settled.trans h.settled
  cancelled := h'.cancelled.trans h.cancelled

theorem setPending_passes (bidder : Address) (amount : ℤ) (s : State) :
    Passes s (setPending bidder amount s) := by
  rw [setPending_eq]
  exact ⟨⟨rfl, rfl, rfl, rfl, rfl, rfl, rfl⟩, rfl, rfl⟩

theorem queueRefund_passes {highestBid : ℤ} (h : queueRefund highestBid s = .ok t) :
    Passes s t ∧ t.transfers = s.transfers ∧ t.buyItNowPrice = s.buyItNowPrice := by
  unfold queueRefund at h
  split at h
  · next prev _ =>
    simp only [bind_eq_ok, pure_eq_ok] at h
    obtain ⟨_, _, rfl⟩ := h
    refine ⟨setPending_passes _ _ s, ?_⟩
    rw [setPending_eq]
    exact ⟨rfl, rfl⟩
  · rw [pure_eq_ok] at h
    rw [h]
    exact ⟨.refl t, rfl, rfl⟩

theorem requiredTransfer_passes {bidder : Address} {amount transferred : ℤ} {useCredit : Bool}
    (h : requiredTransfer bidder amount useCredit s = .ok (transferred, t)) :
    Passes s t ∧ t.transfers = s.transfers ∧ t.buyItNowPrice = s.buyItNowPrice := by
  unfold requiredTransfer at h
  split at h
  · simp only [applyCredit, bind_eq_ok, pure_eq_ok, Prod.mk.injEq] at h
    obtain ⟨_, _, _, _, _, rfl⟩ := h
    refine ⟨setPending_passes _ _ s, ?_⟩
    rw [setPending_eq]
    exact ⟨rfl, rfl⟩
  · rw [pure_eq_ok, Prod.mk.injEq] at h
    obtain ⟨_, rfl⟩ := h
    exact ⟨.refl s, rfl, rfl⟩

theorem extendDeadline_passes (deadline : ℕ) (s : State) : Passes s (extendDeadline env deadline s) := by
  rw [extendDeadline_eq]
  exact ⟨⟨rfl, rfl, rfl, rfl, rfl, rfl, rfl⟩, rfl, rfl⟩

/-- The bidder gets the item at once, and the seller the whole bid. -/
structure BoughtNow (house : Address) (env : Env) (bidder : Address) (amount : ℤ) (s t : State) :
    Prop extends Fixed s t where
  signed : bidder ∈ env.auths
  asks : ∀ x ∈ Auction.release house s bidder, env.nftAccepts x
  uncancelled : s.cancelled.getD false = false
  settled : t.settled = some true
  cancelled : t.cancelled = s.cancelled
  paid : ∃ token seller transferred, s.token = some token ∧ s.seller = some seller ∧
    t.transfers = s.transfers ++ bidPay house token bidder transferred ++
      [⟨.proceeds, token, house, seller, amount⟩]

theorem placeBid_custody {bidder : Address} {amount : ℤ} {useCredit : Bool}
    (h : placeBid house env bidder amount useCredit s = .ok t) :
    if ∃ price ∈ s.buyItNowPrice, price ≤ amount then BoughtNow house env bidder amount s t
    else Passes s t := by
  simp only [placeBid, getInstance, bind_eq_ok, okOr_eq_ok, requireAuth_eq_ok, rejectIf_eq_ok] at h
  obtain ⟨_, _, _, _, _, hcancelled, deadline, _, _, _, highestBid, _, minIncrement, _, startPrice, _,
    least, _, _, _, _, hauth, u, hqueue, ⟨transferred, v⟩, hcredit, h⟩ := h
  obtain ⟨hu, hutransfers, huprice⟩ := queueRefund_passes hqueue
  obtain ⟨hv, hvtransfers, hvprice⟩ := requiredTransfer_passes hcredit
  have hsv := hu.trans hv
  dsimp only at h
  split at h
  · next hprice =>
    rw [hvprice, huprice] at hprice
    rw [if_pos hprice]
    simp only [buyItNow, getInstance, bind_eq_ok, okOr_eq_ok, pure_eq_ok] at h
    obtain ⟨seller, hseller, token, htoken, w, htake, x, hpay, _, hrelease, rfl⟩ := h
    rw [takeBid_ok htake] at hpay
    rw [recordTransfer_ok hpay] at hrelease ⊢
    rw [releaseNft_eq_ok] at hrelease
    refine ⟨⟨hsv.seller, hsv.token, hsv.nftContract, hsv.nftTokenId, hsv.dutchConfig, hsv.reservePrice,
      hsv.startPrice⟩, hauth, ?_, by simpa using hcancelled, rfl, hsv.cancelled, token, seller,
      transferred, hsv.token.symm.trans htoken, hsv.seller.symm.trans hseller, ?_⟩
    · have hsame : Auction.release house v bidder = Auction.release house s bidder :=
        hsv.toFixed.release
      rw [← hsame]
      exact hrelease
    · simp only [hvtransfers, hutransfers]
  · next hprice =>
    rw [hvprice, huprice] at hprice
    rw [if_neg hprice]
    have hbid : Passes v { v with highestBidder := some bidder, highestBid := some amount } :=
      ⟨⟨rfl, rfl, rfl, rfl, rfl, rfl, rfl⟩, rfl, rfl⟩
    have hraised : Passes s (extendDeadline env deadline
        { v with highestBidder := some bidder, highestBid := some amount }) :=
      (hsv.trans hbid).trans (extendDeadline_passes deadline _)
    split at h
    · simp only [bind_eq_ok] at h
      obtain ⟨token, _, htake⟩ := h
      rw [takeBid_ok htake]
      exact hraised.trans ⟨⟨rfl, rfl, rfl, rfl, rfl, rfl, rfl⟩, rfl, rfl⟩
    · rw [pure_eq_ok] at h
      rw [← h]
      exact hraised

/-- What the seller gets, by a transfer or to be collected. -/
inductive Proceeds (house token seller : Address) (proceeds : ℤ) (s t : State) : Prop where
  | paid (transfers : t.transfers = s.transfers ++ [⟨.proceeds, token, house, seller, proceeds⟩])
      (sellerPending : t.sellerPending = s.sellerPending)
  | queued (transfers : t.transfers = s.transfers)
      (sellerPending : t.sellerPending =
        s.sellerPending.insert seller (entry s.sellerPending seller + proceeds))

theorem payRoyalty_cases {token : Address} {highestBid proceeds : ℤ}
    (h : payRoyalty house env token highestBid s = .ok (proceeds, t)) :
    (proceeds = highestBid ∧ t = s) ∨ ∃ recipient royalty, 0 < royalty ∧ royalty < highestBid ∧
      proceeds = highestBid - royalty ∧
      t = { s with transfers := s.transfers ++ [⟨.royalty, token, house, recipient, royalty⟩] } := by
  have hfailed : ∀ {x : Transfer Purpose} {u : State}, tryTransfer env x s = (false, u) → u = s := by
    intro x u htry
    unfold tryTransfer at htry
    split at htry
    · cases htry
    · cases htry
      rfl
  unfold payRoyalty at h
  split at h
  · split at h
    · next recipient royalty _ =>
      split at h
      · next hamount =>
        split at h
        · next u htry =>
          simp only [bind_eq_ok, okOr_eq_ok, checkedSub_eq_some, pure_eq_ok, Prod.mk.injEq] at h
          obtain ⟨_, ⟨_, rfl⟩, rfl, rfl⟩ := h
          unfold tryTransfer at htry
          split at htry
          · cases htry
            exact .inr ⟨recipient, royalty, hamount.1, hamount.2, rfl, rfl⟩
          · cases htry
        · next u htry =>
          rw [pure_eq_ok, Prod.mk.injEq] at h
          obtain ⟨rfl, rfl⟩ := h
          exact .inl ⟨rfl, hfailed htry⟩
      · rw [pure_eq_ok, Prod.mk.injEq] at h
        exact .inl ⟨h.1.symm, h.2.symm⟩
    · rw [pure_eq_ok, Prod.mk.injEq] at h
      exact .inl ⟨h.1.symm, h.2.symm⟩
  · rw [pure_eq_ok, Prod.mk.injEq] at h
    exact .inl ⟨h.1.symm, h.2.symm⟩

/-- How the money of an ended auction moves: back to the highest bidder of an auction that sold
    nothing, or to the seller and to whom a royalty is due, together exactly the highest bid. -/
inductive Settlement (house : Address) (s t : State) : Prop where
  | unsold (winner : winnerOf s = none) (nobody : s.highestBidder = none ∨
        s.highestBid.getD 0 < s.startPrice.getD 0) (transfers : t.transfers = s.transfers)
  | returned (winner : winnerOf s = none) (token bidder : Address)
      (bid : s.token = some token ∧ s.highestBidder = some bidder)
      (transfers : t.transfers =
        s.transfers ++ [⟨.refund, token, house, bidder, s.highestBid.getD 0⟩])
  | sold (buyer token seller recipient : Address) (royalty : ℤ) (winner : winnerOf s = some buyer)
      (deal : s.token = some token ∧ s.seller = some seller)
      (range : 0 ≤ royalty ∧ (0 < royalty → royalty < s.highestBid.getD 0))
      (proceeds : Proceeds house token seller (s.highestBid.getD 0 - royalty)
        { s with transfers := s.transfers ++
          if 0 < royalty then [⟨.royalty, token, house, recipient, royalty⟩] else [] } t)

/-- The item goes to the winner, or back to the seller. -/
structure Ended (house : Address) (env : Env) (s t : State) : Prop extends Fixed s t where
  open_ : s.settled = some false ∧ s.cancelled.getD false = false ∧ s.dutchConfig = none
  settled : t.settled = some true
  cancelled : t.cancelled = s.cancelled
  asks : ∀ target ∈ (winnerOf s).or s.seller, ∀ x ∈ Auction.release house s target, env.nftAccepts x
  settlement : Settlement house s t

theorem endAuction_custody (h : endAuction house env s = .ok t) : Ended house env s t := by
  simp only [endAuction, getInstance, bind_eq_ok, okOr_eq_ok, rejectIf_eq_ok] at h
  obtain ⟨seller, hseller, _, henglish, _, hcancelled, deadline, _, _, _, settled, hsettled, _, hopen,
    startPrice, hstart, highestBid, hbid, h⟩ := h
  have hopen' : s.settled = some false ∧ s.cancelled.getD false = false ∧ s.dutchConfig = none := by
    refine ⟨?_, by simpa using hcancelled, by simpa using henglish⟩
    rw [hsettled]
    simpa using hopen
  have hstart' : s.startPrice.getD 0 = startPrice := by rw [hstart, Option.getD_some]
  have hbid' : s.highestBid.getD 0 = highestBid := by rw [hbid, Option.getD_some]
  split at h
  · next hnone =>
    simp only [bind_eq_ok, pure_eq_ok] at h
    obtain ⟨_, hrelease, rfl⟩ := h
    have hwinner : winnerOf s = none := by
      unfold winnerOf
      rw [hstart', hbid', hnone, Option.filter_none]
    have hnobody : s.highestBidder = none ∨ s.highestBid.getD 0 < s.startPrice.getD 0 := by
      rw [hstart', hbid']
      cases hbidder : s.highestBidder with
      | none => exact .inl rfl
      | some bidder =>
        rw [hbidder, Option.filter_eq_none_iff] at hnone
        exact .inr (by simpa using hnone)
    refine ⟨⟨rfl, rfl, rfl, rfl, rfl, rfl, rfl⟩, hopen', rfl, rfl, ?_, .unsold hwinner hnobody rfl⟩
    intro target htarget
    rw [hwinner, Option.none_or, hseller, Option.mem_some] at htarget
    rw [← htarget]
    exact releaseNft_eq_ok.mp hrelease
  · next winner hsome =>
    have hbidder : s.highestBidder = some winner := (Option.filter_eq_some_iff.mp hsome).1
    simp only [bind_eq_ok, okOr_eq_ok] at h
    obtain ⟨token, htoken, h⟩ := h
    split at h
    · next hreserve =>
      simp only [bind_eq_ok, pure_eq_ok] at h
      obtain ⟨u, hpay, _, hrelease, rfl⟩ := h
      rw [recordTransfer_ok hpay] at hrelease ⊢
      have hwinner : winnerOf s = none := by
        unfold winnerOf
        rw [hstart', hbid', hsome, Option.filter_eq_none_iff]
        obtain ⟨reserve, hreserve, hless⟩ := hreserve
        intro _ _ hall
        exact absurd (of_decide_eq_true hall reserve hreserve) (not_le.mpr hless)
      refine ⟨⟨rfl, rfl, rfl, rfl, rfl, rfl, rfl⟩, hopen', rfl, rfl, ?_,
        .returned hwinner token winner ⟨htoken, hbidder⟩ ?_⟩
      · intro target htarget
        rw [hwinner, Option.none_or, hseller, Option.mem_some] at htarget
        rw [← htarget]
        exact releaseNft_eq_ok.mp hrelease
      · rw [hbid']
    · next hreserve =>
      simp only [bind_eq_ok, pure_eq_ok] at h
      obtain ⟨⟨proceeds, u⟩, hroyalty, v, hpay, _, hrelease, rfl⟩ := h
      have hwinner : winnerOf s = some winner := by
        unfold winnerOf
        rw [hstart', hbid', hsome, Option.filter_eq_some_iff]
        refine ⟨rfl, decide_eq_true ?_⟩
        intro reserve hmem
        by_contra hless
        exact hreserve ⟨reserve, hmem, not_le.mp hless⟩
      have hpaid : ∃ recipient royalty, (0 ≤ royalty ∧ (0 < royalty → royalty < highestBid)) ∧
          proceeds = highestBid - royalty ∧ u = { s with
            settled := some true
            transfers := s.transfers ++
              if 0 < royalty then [⟨.royalty, token, house, recipient, royalty⟩] else [] } := by
        rcases payRoyalty_cases hroyalty with ⟨rfl, rfl⟩ | ⟨recipient, royalty, hpos, hless, rfl, rfl⟩
        · refine ⟨seller, 0, ⟨le_refl 0, fun h => absurd h (lt_irrefl 0)⟩, (sub_zero _).symm, ?_⟩
          rw [if_neg (lt_irrefl 0), List.append_nil]
        · refine ⟨recipient, royalty, ⟨hpos.le, fun _ => hless⟩, rfl, ?_⟩
          rw [if_pos hpos]
      obtain ⟨recipient, royalty, hrange, rfl, rfl⟩ := hpaid
      rw [releaseNft_eq_ok] at hrelease
      have hsold := @Settlement.sold house s v winner token seller recipient royalty hwinner
        ⟨htoken, hseller⟩ (by rwa [hbid'])
      rw [hbid'] at hsold
      have hgives : ∀ target ∈ (winnerOf s).or s.seller, target = winner := by
        intro target htarget
        rw [hwinner, Option.some_or, Option.mem_some] at htarget
        exact htarget.symm
      rcases paySeller_ok hpay with rfl | rfl
      · refine ⟨⟨rfl, rfl, rfl, rfl, rfl, rfl, rfl⟩, hopen', rfl, rfl, ?_, hsold (.paid rfl rfl)⟩
        intro target htarget
        rw [hgives target htarget]
        exact hrelease
      · refine ⟨⟨rfl, rfl, rfl, rfl, rfl, rfl, rfl⟩, hopen', rfl, rfl, ?_, hsold (.queued rfl rfl)⟩
        intro target htarget
        rw [hgives target htarget]
        exact hrelease

/-- The buyer of a Dutch auction pays the price of the ledger to the seller and gets the item. -/
structure Bought (house : Address) (env : Env) (buyer : Address) (maxPrice : ℤ) (s t : State) : Prop
    extends Fixed s t where
  signed : buyer ∈ env.auths
  open_ : s.settled.getD false = false ∧ s.cancelled.getD false = false
  settled : t.settled = some true
  cancelled : t.cancelled = s.cancelled
  asks : ∀ x ∈ Auction.release house s buyer, env.nftAccepts x
  paid : ∃ cfg price seller, s.dutchConfig = some cfg ∧ priceAt cfg env.sequence = .ok price ∧
    price ≤ maxPrice ∧ s.seller = some seller ∧
    ∃ token, (0 < price → s.token = some token) ∧ t.transfers = s.transfers ++
      if 0 < price then [⟨.sale, token, buyer, seller, price⟩] else []

theorem buy_custody {buyer : Address} {maxPrice : ℤ} (h : buy house env buyer maxPrice s = .ok t) :
    Bought house env buyer maxPrice s t := by
  simp only [buy, getInstance, bind_eq_ok, okOr_eq_ok, requireAuth_eq_ok, rejectIf_eq_ok, not_or,
    not_lt, pure_eq_ok] at h
  obtain ⟨seller, hseller, cfg, hcfg, _, ⟨hsettled, hcancelled⟩, _, _, price, hprice, _, hmax, _, hauth,
    u, hpay, _, hrelease, rfl⟩ := h
  have hopen : s.settled.getD false = false ∧ s.cancelled.getD false = false :=
    ⟨by simpa using hsettled, by simpa using hcancelled⟩
  rw [releaseNft_eq_ok] at hrelease
  unfold paySale at hpay
  split at hpay
  · next hpos =>
    simp only [getInstance, bind_eq_ok, okOr_eq_ok] at hpay
    obtain ⟨token, htoken, hpay⟩ := hpay
    rw [recordTransfer_ok hpay] at hrelease ⊢
    refine ⟨⟨rfl, rfl, rfl, rfl, rfl, rfl, rfl⟩, hauth, hopen, rfl, rfl, hrelease, cfg, price, seller,
      hcfg, hprice, hmax, hseller, token, fun _ => htoken, ?_⟩
    rw [if_pos hpos]
  · next hfree =>
    rw [pure_eq_ok] at hpay
    subst hpay
    refine ⟨⟨rfl, rfl, rfl, rfl, rfl, rfl, rfl⟩, hauth, hopen, rfl, rfl, hrelease, cfg, price, seller,
      hcfg, hprice, hmax, hseller, seller, fun h => absurd h hfree, ?_⟩
    rw [if_neg hfree, List.append_nil]

/-- The seller takes the item back from an auction without a bid. -/
structure Withdrawn (house : Address) (env : Env) (owner : Address) (auctionIds : List ℕ)
    (s t : State) : Prop extends Fixed s t where
  signed : owner ∈ env.auths ∧ s.seller = some owner
  settled : t.settled = s.settled
  transfers : t.transfers = s.transfers
  cancelled : (auctionIds = [] ∧ t.cancelled = s.cancelled) ∨ (auctionIds ≠ [] ∧
    t.cancelled = some true ∧ s.settled.getD false = false ∧ s.cancelled.getD false = false ∧
    s.highestBidder = none)
  asks : ∀ x ∈ auctionIds.flatMap fun _ => Auction.release house s owner, env.nftAccepts x

theorem cancelEach_custody {seller : Address} {auctionIds : List ℕ}
    (h : auctionIds.foldlM (fun s _ => cancelOne house env seller s) s = .ok t) :
    t = { s with cancelled := if auctionIds = [] then s.cancelled else some true } ∧
      ∀ x ∈ auctionIds.flatMap fun _ => Auction.release house s seller, env.nftAccepts x := by
  induction auctionIds generalizing s with
  | nil =>
    rw [List.foldlM_nil, pure_eq_ok] at h
    rw [← h, if_pos rfl]
    exact ⟨rfl, by simp⟩
  | cons id rest ih =>
    simp only [List.foldlM_cons, cancelOne, bind_eq_ok, pure_eq_ok] at h
    obtain ⟨_, ⟨_, hrelease, rfl⟩, h⟩ := h
    rw [releaseNft_eq_ok] at hrelease
    obtain ⟨hrest, hasks⟩ := ih h
    constructor
    · rw [hrest, if_neg (List.cons_ne_nil _ _)]
      split <;> rfl
    · intro x hx
      rw [List.flatMap_cons] at hx
      rcases List.mem_append.mp hx with hx | hx
      · exact hrelease x hx
      · exact hasks x hx

theorem cancelAuctionsBatch_custody {seller : Address} {auctionIds : List ℕ}
    (h : cancelAuctionsBatch house env seller auctionIds s = .ok t) :
    Withdrawn house env seller auctionIds s t := by
  simp only [cancelAuctionsBatch, getInstance, bind_eq_ok, okOr_eq_ok, requireAuth_eq_ok,
    rejectIf_eq_ok, not_not] at h
  obtain ⟨_, hauth, storedSeller, hseller, _, rfl, _, hchecks, h⟩ := h
  obtain ⟨rfl, hasks⟩ := cancelEach_custody h
  refine ⟨⟨rfl, rfl, rfl, rfl, rfl, rfl, rfl⟩, ⟨hauth, hseller⟩, rfl, rfl, ?_, hasks⟩
  cases auctionIds with
  | nil => exact .inl ⟨rfl, rfl⟩
  | cons id rest =>
    have hcheck := forM_ok hchecks id List.mem_cons_self
    simp only [bind_eq_ok, rejectIf_eq_ok, not_or] at hcheck
    obtain ⟨_, ⟨hsettled, hcancelled⟩, _, _, _, _, hnobody, _⟩ := hcheck
    refine .inr ⟨List.cons_ne_nil _ _, rfl, by simpa using hsettled, by simpa using hcancelled, ?_⟩
    simpa using hnobody

end Specs

section Outcomes
variable {house : Address} {i : Invocation house} {s t : State}

/-- A bid that reaches the buy-it-now price. -/
def BuysNow (i : Invocation house) (s : State) (bidder : Address) (amount : ℤ) : Prop :=
  (i.call = .bid bidder amount ∨ i.call = .bidWithCredit bidder amount) ∧
    ∃ price ∈ s.buyItNowPrice, price ≤ amount

/-- What a returning call did, after the start. -/
inductive Outcome (i : Invocation house) (s t : State) : Prop where
  | passed (passes : Passes s t) (calls : nftCalls i s = [])
  | boughtNow (bidder : Address) (amount : ℤ) (call : BuysNow i s bidder amount)
      (bought : BoughtNow house i.toEnv bidder amount s t)
  | ended (call : i.call = .endAuction) (ended : Ended house i.toEnv s t)
  | bought (buyer : Address) (maxPrice : ℤ) (call : i.call = .buy buyer maxPrice)
      (bought : Bought house i.toEnv buyer maxPrice s t)
  | withdrawn (owner : Address) (auctionIds : List ℕ)
      (call : i.call = .cancelAuctionsBatch owner auctionIds)
      (withdrawn : Withdrawn house i.toEnv owner auctionIds s t)

theorem placeBid_outcome {bidder : Address} {amount : ℤ} {useCredit : Bool}
    (hcall : i.call = .bid bidder amount ∨ i.call = .bidWithCredit bidder amount)
    (h : placeBid house i.toEnv bidder amount useCredit s = .ok t) : Outcome i s t := by
  have hcustody := placeBid_custody h
  split at hcustody
  · next hprice => exact .boughtNow bidder amount ⟨hcall, hprice⟩ hcustody
  · next hprice =>
    refine .passed hcustody ?_
    unfold nftCalls
    rcases hcall with hcall | hcall
    · simp only [hcall]
      exact if_neg hprice
    · simp only [hcall]
      exact if_neg hprice

theorem exec_outcome (hstarted : s.seller ≠ none) (h : exec i s = .ok t) : Outcome i s t := by
  cases hcall : i.call with
  | start =>
    simp only [exec, hcall, start, bind_eq_ok, rejectIf_eq_ok] at h
    obtain ⟨_, hnone, _⟩ := h
    exact absurd (by simpa using hnone) hstarted
  | startDutch =>
    simp only [exec, hcall, startDutch, bind_eq_ok, rejectIf_eq_ok] at h
    obtain ⟨_, hnone, _⟩ := h
    exact absurd (by simpa using hnone) hstarted
  | buy buyer maxPrice =>
    simp only [exec, hcall] at h
    exact .bought buyer maxPrice hcall (buy_custody h)
  | bid bidder amount =>
    simp only [exec, hcall, bid] at h
    exact placeBid_outcome (.inl hcall) h
  | bidWithCredit bidder totalBid =>
    simp only [exec, hcall, bidWithCredit] at h
    exact placeBid_outcome (.inr hcall) h
  | endAuction =>
    simp only [exec, hcall] at h
    exact .ended hcall (endAuction_custody h)
  | cancelAuctionsBatch owner auctionIds =>
    simp only [exec, hcall] at h
    exact .withdrawn owner auctionIds hcall (cancelAuctionsBatch_custody h)
  | withdraw bidder =>
    simp only [exec, hcall, withdraw, bind_eq_ok] at h
    obtain ⟨_, _, _, _, token, _, hpay⟩ := h
    rw [recordTransfer_ok hpay]
    exact .passed ⟨⟨rfl, rfl, rfl, rfl, rfl, rfl, rfl⟩, rfl, rfl⟩ (by simp only [nftCalls, hcall])
  | withdrawSellerProceeds seller =>
    simp only [exec, hcall, withdrawSellerProceeds, bind_eq_ok] at h
    obtain ⟨_, _, _, _, token, _, hpay⟩ := h
    rw [recordTransfer_ok hpay]
    exact .passed ⟨⟨rfl, rfl, rfl, rfl, rfl, rfl, rfl⟩, rfl, rfl⟩ (by simp only [nftCalls, hcall])

theorem BuysNow.nftCalls_eq {bidder : Address} {amount : ℤ} (h : BuysNow i s bidder amount) :
    nftCalls i s = release house s bidder := by
  obtain ⟨hcall | hcall, hprice⟩ := h
  · simp only [nftCalls, hcall]
    exact if_pos hprice
  · simp only [nftCalls, hcall]
    exact if_pos hprice

theorem nftCalls_endAuction {seller : Address} (hseller : s.seller = some seller)
    (hcall : i.call = .endAuction) : ∃ target, (winnerOf s).or s.seller = some target ∧
      nftCalls i s = release house s target := by
  have hheir : ∃ target, (winnerOf s).or s.seller = some target := by
    cases hwinner : winnerOf s with
    | none => exact ⟨seller, by rw [Option.none_or]; exact hseller⟩
    | some winner => exact ⟨winner, Option.some_or⟩
  obtain ⟨target, htarget⟩ := hheir
  refine ⟨target, htarget, ?_⟩
  simp only [nftCalls, hcall]
  rw [htarget, Option.toList_some, List.flatMap_singleton]

end Outcomes

/-- A collection of NFTs with a state of its own, as other contracts call it. -/
structure Collection (ν : Type) where
  address : Address
  transfer : Context → Address → Address → ℕ → ν → Option ν
  owner : ν → ℕ → Option Address

section Custody
variable {ν κ η : Type} (N : Collection ν) (house : Address)

/-- The auction signs for what it sends. -/
def moveItem (ctx : Context) (n : ν) (x : NftTransfer) : Option ν :=
  if x.contract = N.address then
    N.transfer { ctx with auths := if x.source = house then house :: ctx.auths else ctx.auths }
      x.source x.target x.tokenId n
  else some n

def moveItems (ctx : Context) (n : ν) (xs : List NftTransfer) : Option ν :=
  xs.foldlM (moveItem N house ctx) n

/-- A call on the auction, or one on the collection. -/
inductive CustodyCall (house : Address) (κ : Type) where
  | auction (i : Invocation house)
  | collection (j : κ)

/-- The call with the replies of the collection as it stands. -/
def answered {house : Address} (N : Collection ν) (i : Invocation house) (n : ν) : Invocation house :=
  replying (fun x => (moveItem N house i.toContext n x).isSome) i

/-- A call on the auction returns when it and the transfers it asks for do. -/
def custodyExec (direct : κ → ν → Except η ν) :
    CustodyCall house κ → State × ν → Except Unit (State × ν)
  | .auction i, (s, n) =>
    match exec (answered N i n) s, moveItems N house i.toContext n (nftCalls i s) with
    | .ok t, some m => .ok (t, m)
    | _, _ => .error ()
  | .collection j, (s, n) =>
    match direct j n with
    | .ok m => .ok (s, m)
    | .error _ => .error ()

end Custody

end SorobanKit.Auction
