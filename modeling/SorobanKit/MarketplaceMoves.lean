import SorobanKit.HostBalances
import SorobanKit.MarketplaceContract

set_option autoImplicit false

/-!
# What a call does to the marketplace

Listings are numbered, never removed, and keep their payment token. `Move` lists everything a
returning call can do, with the guards it passed.
-/
namespace SorobanKit.Marketplace
open HostBalances HostInteger HostInvocation HostTransfers

def Numbered (s : State) : Prop :=
  ∀ id listing, s.listings.lookup id = some listing → id < s.nextListingId.getD 0

/-- Every listing of `s` is still there, in the same token. -/
structure Relisted (s t : State) : Prop where
  same : t = { s with listings := t.listings, nextListingId := t.nextListingId }
  numbered : Numbered t
  kept : ∀ id listing, s.listings.lookup id = some listing →
    ∃ later, t.listings.lookup id = some later ∧ later.paymentToken = listing.paymentToken

def splitTotal (splits : List (Address × ℕ)) : ℕ := (splits.map Prod.snd).sum

/-- The payment of `payDelta`. -/
def deltaPay (house : Address) (listingId : ℕ) (token buyer : Address) (prior amount : ℤ) :
    List (Transfer Purpose) :=
  if prior < amount then
    [⟨.offers [(listingId, amount - prior)], token, buyer, house, amount - prior⟩]
  else if amount < prior then
    [⟨.offerRefund listingId, token, house, buyer, prior - amount⟩]
  else []

/-- What is stored under an offer's key. -/
def offeredOn (listingId : ℕ) (buyer : Address) (s : State) : ℤ :=
  ((s.offers.lookup (listingId, buyer)).map Offer.amount).getD 0

def shareTotal (shares : List (ℕ × ℤ)) : ℤ := (shares.map Prod.snd).sum

/-- The offers of a batch, one after the other. -/
def storeShares (buyer : Address) (expiration : ℕ) (shares : List (ℕ × ℤ))
    (offers : Finmap (fun _ : ℕ × Address => Offer)) : Finmap (fun _ : ℕ × Address => Offer) :=
  shares.foldl (fun m share => m.insert (share.1, buyer) ⟨share.2, expiration⟩) offers

/-- The payments of `payShares`. -/
def salePay (token payer seller : Address) (price : ℤ) (royalties : List (Address × ℤ)) :
    List (Transfer Purpose) :=
  ⟨.sale, token, payer, seller,
    price - royalties.foldl (fun total royalty => saturatingAdd total royalty.2) 0⟩ ::
  (royalties.filter fun royalty => 0 < royalty.2).map fun royalty =>
    ⟨.royalty, token, payer, royalty.1, royalty.2⟩

def Call.Sells : Call → Prop
  | .acceptCollectionOffer .. | .buyBundle .. => True
  | _ => False

/-- No price of a bundle is new, unless it is positive. -/
def PricesKept (s t : State) : Prop :=
  ∀ id bundle, t.bundles.lookup id = some bundle → 0 < bundle.totalPrice ∨
    ∃ old, s.bundles.lookup id = some old ∧ old.totalPrice = bundle.totalPrice

inductive Move {house : Address} (i : Invocation house) (s t : State) : Prop where
  | initialized (hnone : s.admin = none)
  | configured
      (hsplits : t.royaltySplits = s.royaltySplits ∨
        ∀ splits, t.royaltySplits = some splits → splitTotal splits ≤ 10000)
      (h : t = { s with
        allowedTokens := t.allowedTokens, whitelistEnabled := t.whitelistEnabled,
        stakingContract := t.stakingContract, minCounterOfferBps := t.minCounterOfferBps,
        royaltySplits := t.royaltySplits })
  | relisted (h : Relisted s t)
  | bundled (hprices : PricesKept s t)
      (h : t = { s with bundles := t.bundles, nextBundleId := t.nextBundleId })
  | offered (buyer : Address) (id : ℕ) (listing : Listing) (amount : ℤ) (expirationLedger : ℕ)
      (hauth : buyer ∈ i.auths) (hlisting : s.listings.lookup id = some listing)
      (hamount : 0 < amount)
      (h : t = { s with
        offers := s.offers.insert (id, buyer) ⟨amount, expirationLedger⟩,
        highestOffers := t.highestOffers,
        transfers := s.transfers ++
          deltaPay house id listing.paymentToken buyer (offeredOn id buyer s) amount })
  | offeredBatch (buyer token : Address) (tokenIds : List ℕ) (prices : List ℤ) (expiration : ℕ)
      (hcall : i.call = .makeOffersBatch buyer tokenIds prices expiration)
      (hlength : tokenIds.length = prices.length) (hauth : buyer ∈ i.auths)
      (hshares : ∀ share ∈ offerShares s (tokenIds.zip prices), 0 < share.2 ∧
        ∃ listing, s.listings.lookup share.1 = some listing ∧ listing.paymentToken = token)
      (h : t = { s with
        offers := storeShares buyer expiration (offerShares s (tokenIds.zip prices)) s.offers,
        transfers := s.transfers ++ [⟨.offers (offerShares s (tokenIds.zip prices)), token, buyer,
          house, shareTotal (offerShares s (tokenIds.zip prices))⟩] })
  | refunded (buyer : Address) (id : ℕ) (listing : Listing) (offer : Offer)
      (hlisting : s.listings.lookup id = some listing)
      (hoffer : s.offers.lookup (id, buyer) = some offer)
      (h : t = { s with
        offers := s.offers.erase (id, buyer),
        transfers := s.transfers ++
          [⟨.offerRefund id, listing.paymentToken, house, buyer, offer.amount⟩] })
  | swept (id : ℕ) (listing : Listing) (buyers : List Address) (u : State)
      (hlisting : s.listings.lookup id = some listing)
      (hfold : buyers.foldlM (sweepOne house i.toEnv id listing.paymentToken)
        { s with locked := true } = .ok u)
      (h : t = releaseLock u)
  | collectionOffered (buyer nftContract token : Address) (amount : ℤ) (expiresAt : ℕ)
      (hcall : i.call = .makeCollectionOffer buyer nftContract amount expiresAt)
      (hauth : buyer ∈ i.auths) (htoken : s.paymentToken = some token) (hamount : 0 < amount)
      (h : t = { s with
        collectionOffers := s.collectionOffers.insert (s.nextCollectionOfferId.getD 0)
          ⟨buyer, nftContract, amount, expiresAt⟩,
        nextCollectionOfferId := t.nextCollectionOfferId,
        transfers := s.transfers ++
          [⟨.collectionOffer (s.nextCollectionOfferId.getD 0), token, buyer, house, amount⟩] })
  | collectionCancelled (id : ℕ) (offer : CollectionOffer) (token : Address)
      (htoken : s.paymentToken = some token) (hoffer : s.collectionOffers.lookup id = some offer)
      (h : t = { s with
        collectionOffers := s.collectionOffers.erase id,
        transfers := s.transfers ++
          [⟨.collectionRefund id, token, house, offer.buyer, offer.amount⟩] })
  | sold (hcall : i.call.Sells) (hprices : PricesKept s t)
      (hoffers : ∀ id offer, t.collectionOffers.lookup id = some offer →
        s.collectionOffers.lookup id = some offer)
      (h : t = { s with
        collectionOffers := t.collectionOffers, bundles := t.bundles, locked := t.locked,
        transfers := t.transfers })

section Specs
variable {house : Address} {env : Env} {s t u : State}

theorem payDelta_ok {id : ℕ} {token buyer : Address} {prior amount : ℤ}
    (h : payDelta house env id token buyer prior amount s = .ok t) :
    t = { s with transfers := s.transfers ++ deltaPay house id token buyer prior amount } := by
  unfold payDelta at h
  unfold deltaPay
  split at h
  · next hmore =>
    rw [if_pos hmore]
    exact recordTransfer_ok h
  · next hmore =>
    rw [if_neg hmore]
    split at h
    · next hless =>
      rw [if_pos hless]
      exact recordTransfer_ok h
    · next hless =>
      rw [if_neg hless, List.append_nil]
      rw [pure_eq_ok] at h
      exact h.symm

theorem raiseHighest_eq (id : ℕ) (amount : ℤ) (s : State) :
    raiseHighest id amount s =
      { s with highestOffers := (raiseHighest id amount s).highestOffers } := by
  unfold raiseHighest
  split <;> rfl

theorem findListingByToken_ok {tokenId id : ℕ} {listing : Listing}
    (h : findListingByToken tokenId s = some (id, listing)) :
    s.listings.lookup id = some listing ∧ listing.tokenId = tokenId := by
  unfold findListingByToken at h
  generalize List.range (s.nextListingId.getD 0) = ids at h
  -- what the loop has found so far is such a listing, from the last round backwards
  induction ids using List.reverseRecOn with
  | nil => cases h
  | append_singleton ids last ih =>
    rw [List.foldl_append, List.foldl_cons, List.foldl_nil] at h
    split at h
    · next found hlookup =>
      split at h
      · next hmatch =>
        cases h
        exact ⟨hlookup, hmatch.1⟩
      · exact ih h
    · exact ih h

theorem checkOffer_ok {token : Address} {total next : ℤ} {item : ℕ × ℤ}
    (h : checkOffer token s total item = .ok next) :
    ∃ id listing, findListingByToken item.1 s = some (id, listing) ∧ 0 < item.2 ∧
      listing.paymentToken = token ∧ next = total + item.2 := by
  simp only [checkOffer, bind_eq_ok, okOr_eq_ok, rejectIf_eq_ok, not_or, not_le, not_not,
    checkedAdd_eq_some] at h
  obtain ⟨⟨id, listing⟩, hfound, _, _, _, hamount, _, htoken, _, hnext⟩ := h
  exact ⟨id, listing, hfound, hamount.1, htoken, hnext.symm⟩

theorem offerShares_cons {id : ℕ} {listing : Listing} {item : ℕ × ℤ} (items : List (ℕ × ℤ))
    (h : findListingByToken item.1 s = some (id, listing)) :
    offerShares s (item :: items) = (id, item.2) :: offerShares s items := by
  rw [offerShares, List.filterMap_cons, h]
  rfl

theorem checkOffers_ok {token : Address} {items : List (ℕ × ℤ)} {start total : ℤ}
    (h : items.foldlM (checkOffer token s) start = .ok total) :
    total = start + shareTotal (offerShares s items) ∧
      ∀ share ∈ offerShares s items, 0 < share.2 ∧
        ∃ listing, s.listings.lookup share.1 = some listing ∧ listing.paymentToken = token := by
  induction items generalizing start with
  | nil =>
    rw [List.foldlM_nil, pure_eq_ok] at h
    simp [offerShares, shareTotal, h]
  | cons item items ih =>
    rw [List.foldlM_cons, bind_eq_ok] at h
    obtain ⟨next, hitem, h⟩ := h
    obtain ⟨id, listing, hfound, hamount, htoken, rfl⟩ := checkOffer_ok hitem
    obtain ⟨htotal, hrest⟩ := ih h
    rw [offerShares_cons items hfound]
    refine ⟨?_, List.forall_mem_cons.mpr ⟨⟨hamount, listing, ?_, htoken⟩, hrest⟩⟩
    · rw [htotal, shareTotal, shareTotal, List.map_cons, List.sum_cons, add_assoc]
    · exact (findListingByToken_ok hfound).1

theorem storeOffers_ok {buyer : Address} {expiration : ℕ} {items : List (ℕ × ℤ)}
    (h : items.foldlM (storeOffer buyer expiration) s = .ok t) :
    t = { s with offers := storeShares buyer expiration (offerShares s items) s.offers } := by
  induction items generalizing s with
  | nil =>
    rw [List.foldlM_nil, pure_eq_ok] at h
    exact h.symm
  | cons item items ih =>
    simp only [List.foldlM_cons, storeOffer, bind_eq_ok, okOr_eq_ok, pure_eq_ok] at h
    obtain ⟨_, ⟨⟨id, listing⟩, hfound, rfl⟩, h⟩ := h
    rw [ih h, offerShares_cons items hfound]
    rfl

theorem payRoyalties_ok {token payer : Address} {royalties : List (Address × ℤ)}
    (h : royalties.foldlM (payRoyalty env token payer) s = .ok t) :
    t = { s with
      transfers := s.transfers ++ (royalties.filter fun royalty => 0 < royalty.2).map fun royalty =>
        ⟨.royalty, token, payer, royalty.1, royalty.2⟩ } := by
  induction royalties generalizing s with
  | nil =>
    rw [List.foldlM_nil, pure_eq_ok] at h
    simp [← h]
  | cons royalty royalties ih =>
    rw [List.foldlM_cons, bind_eq_ok] at h
    obtain ⟨s₁, hpay, h⟩ := h
    unfold payRoyalty at hpay
    split at hpay
    · next hpos =>
      rw [ih h, recordTransfer_ok hpay]
      simp [hpos]
    · next hpos =>
      rw [pure_eq_ok] at hpay
      rw [ih h, ← hpay]
      simp [hpos]

theorem payShares_ok {token payer seller : Address} {price : ℤ} {royalties : List (Address × ℤ)}
    (h : payShares env token payer seller price royalties s = .ok t) :
    t = { s with transfers := s.transfers ++ salePay token payer seller price royalties } := by
  simp only [payShares, bind_eq_ok, unwrap_eq_ok, checkedSub_eq_some] at h
  obtain ⟨_, ⟨_, rfl⟩, s₁, hsale, h⟩ := h
  rw [payRoyalties_ok h, recordTransfer_ok hsale, salePay]
  simp

theorem settleSale_ok {token payer seller recipient nft : Address} {tokenId : ℕ} {price : ℤ}
    (h : settleSale house env token payer seller recipient nft tokenId price s = .ok t) :
    ∃ royalties, resolveRoyalty env nft tokenId price (feeDiscountBps env seller s) s = .ok royalties ∧
      t = { s with transfers := s.transfers ++ salePay token payer seller price royalties } := by
  simp only [settleSale, bind_eq_ok, pure_eq_ok] at h
  obtain ⟨royalties, hroyalties, s₁, hpay, _, _, rfl⟩ := h
  exact ⟨royalties, hroyalties, payShares_ok hpay⟩

theorem addSplits_ok {splits : List (Address × ℕ)} {start total : ℕ}
    (h : splits.foldlM addSplit start = .ok total) : total = start + splitTotal splits := by
  induction splits generalizing start with
  | nil =>
    rw [List.foldlM_nil, pure_eq_ok] at h
    simp [splitTotal, h]
  | cons split splits ih =>
    simp only [List.foldlM_cons, addSplit, bind_eq_ok, rejectIf_eq_ok, okOr_eq_ok,
      checkedAddU32_eq_some] at h
    obtain ⟨_, ⟨_, _, _, rfl⟩, h⟩ := h
    rw [ih h, splitTotal, splitTotal, List.map_cons, List.sum_cons, Nat.add_assoc]

end Specs

section Listings
variable {env : Env} {s t u : State}

theorem Relisted.refl (hs : Numbered s) : Relisted s s :=
  ⟨rfl, hs, fun _ listing h => ⟨listing, h, rfl⟩⟩

theorem Relisted.trans (hst : Relisted s t) (htu : Relisted t u) : Relisted s u := by
  refine ⟨?_, htu.numbered, fun id listing h => ?_⟩
  · rw [htu.same, hst.same]
  · obtain ⟨middle, hmiddle, hsame⟩ := hst.kept id listing h
    obtain ⟨later, hlater, hsame'⟩ := htu.kept id middle hmiddle
    exact ⟨later, hlater, hsame'.trans hsame⟩

theorem Relisted.foldlM {α : Type} {f : State → α → Result MarketplaceError State} {items : List α}
    (hstep : ∀ s t item, Numbered s → f s item = .ok t → Relisted s t) (hs : Numbered s)
    (h : items.foldlM f s = .ok t) : Relisted s t := by
  induction items generalizing s with
  | nil =>
    rw [List.foldlM_nil, pure_eq_ok] at h
    rw [← h]
    exact .refl hs
  | cons item items ih =>
    rw [List.foldlM_cons, bind_eq_ok] at h
    obtain ⟨s₁, hitem, h⟩ := h
    have hfirst := hstep s s₁ item hs hitem
    exact hfirst.trans (ih hfirst.numbered h)

theorem addListing_relisted {listing : Listing} (hs : Numbered s)
    (h : addListing listing s = .ok t) : Relisted s t := by
  simp only [addListing, bind_eq_ok, unwrap_eq_ok, checkedAddU64_eq_some, pure_eq_ok] at h
  obtain ⟨_, ⟨_, rfl⟩, rfl⟩ := h
  refine ⟨rfl, fun id found hfound => ?_, fun id old hold => ⟨old, ?_, rfl⟩⟩
  · dsimp only [Option.getD_some] at hfound ⊢
    rw [lookup_insert_ite] at hfound
    split at hfound
    · next hid => omega
    · have hlt := hs id found hfound
      omega
  · have hlt := hs id old hold
    dsimp only
    rw [Finmap.lookup_insert_of_ne _ (Nat.ne_of_lt hlt), hold]

theorem closeListing_relisted {id : ℕ} {listing : Listing} (hs : Numbered s)
    (hlisting : s.listings.lookup id = some listing) : Relisted s (closeListing id listing s) := by
  refine ⟨rfl, fun other found hfound => ?_, fun other old hold => ?_⟩
  · unfold closeListing at hfound
    rw [lookup_insert_ite] at hfound
    split at hfound
    · next hother =>
      rw [hother]
      exact hs id listing hlisting
    · exact hs other found hfound
  · unfold closeListing
    by_cases hother : other = id
    · subst hother
      rw [hlisting] at hold
      cases hold
      exact ⟨{ listing with active := false }, Finmap.lookup_insert _, rfl⟩
    · exact ⟨old, (Finmap.lookup_insert_of_ne _ hother).trans hold, rfl⟩

theorem listImpl_relisted {seller : Address} {params : ListingParams} (hs : Numbered s)
    (h : listImpl env seller s params = .ok t) : Relisted s t := by
  simp only [listImpl, bind_eq_ok] at h
  obtain ⟨_, _, _, _, _, _, _, _, h⟩ := h
  exact addListing_relisted hs h

theorem cancelImpl_relisted {seller : Address} {id : ℕ} (hs : Numbered s)
    (h : cancelImpl seller s id = .ok t) : Relisted s t := by
  simp only [cancelImpl, getListing, bind_eq_ok, okOr_eq_ok, pure_eq_ok] at h
  obtain ⟨listing, hlisting, _, _, _, _, rfl⟩ := h
  exact closeListing_relisted hs hlisting

end Listings

section Moves
variable {house : Address} {i : Invocation house} {s t : State}

theorem makeOffer_move {buyer : Address} {id : ℕ} {amount : ℤ} {expirationLedger : ℕ}
    (h : makeOffer house i.toEnv buyer id amount expirationLedger s = .ok t) : Move i s t := by
  simp only [makeOffer, getListing, bind_eq_ok, okOr_eq_ok, requireAuth_eq_ok, rejectIf_eq_ok,
    not_or, not_le, pure_eq_ok] at h
  obtain ⟨_, _, _, hauth, listing, hlisting, _, _, _, hamount, _, _, _, _, s₁, hpay, rfl⟩ := h
  refine .offered buyer id listing amount expirationLedger hauth hlisting hamount.1 ?_
  rw [raiseHighest_eq, payDelta_ok hpay]
  rfl

theorem makeOffersBatch_move {buyer : Address} {tokenIds : List ℕ} {prices : List ℤ}
    {expiration : ℕ} (hcall : i.call = .makeOffersBatch buyer tokenIds prices expiration)
    (h : makeOffersBatch house i.toEnv buyer tokenIds prices expiration s = .ok t) : Move i s t := by
  simp only [makeOffersBatch, bind_eq_ok, okOr_eq_ok, requireAuth_eq_ok, rejectIf_eq_ok, not_not] at h
  obtain ⟨_, _, _, _, _, hlength, _, _, _, hauth, token, _, total, hcheck, s₁, hpay, hstore⟩ := h
  obtain ⟨rfl, hshares⟩ := checkOffers_ok hcheck
  refine .offeredBatch buyer token tokenIds prices expiration hcall hlength hauth hshares ?_
  rw [storeOffers_ok hstore, recordTransfer_ok hpay, zero_add]
  rfl

theorem refundOffer_move {id : ℕ} {buyer : Address} {listing : Listing} {offer : Offer}
    (hlisting : s.listings.lookup id = some listing) (hoffer : s.offers.lookup (id, buyer) = some offer)
    (h : refundOffer house i.toEnv id listing.paymentToken buyer offer s = .ok t) : Move i s t :=
  .refunded buyer id listing offer hlisting hoffer (recordTransfer_ok h)

theorem sweepOffers_move {id : ℕ} {buyers : List Address}
    (h : sweepOffers house i.toEnv id buyers s = .ok t) : Move i s t := by
  simp only [sweepOffers, acquireLock, getListing, bind_eq_ok, okOr_eq_ok, pure_eq_ok] at h
  obtain ⟨_, _, _, _, listing, hlisting, _, _, _, ⟨_, _, rfl⟩, u, hfold, rfl⟩ := h
  exact .swept id listing buyers u hlisting hfold rfl

theorem acceptCollectionOffer_move {seller : Address} {id tokenId : ℕ}
    (hcall : i.call = .acceptCollectionOffer seller id tokenId)
    (h : acceptCollectionOffer house i.toEnv seller id tokenId s = .ok t) : Move i s t := by
  simp only [acceptCollectionOffer, bind_eq_ok] at h
  obtain ⟨token, _, _, _, offer, _, _, _, _, _, hsettle⟩ := h
  obtain ⟨royalties, _, rfl⟩ := settleSale_ok hsettle
  refine .sold (by rw [hcall]; trivial) (fun id bundle h => .inr ⟨bundle, h, rfl⟩)
    (fun other found hfound => ?_) rfl
  exact (of_lookup_erase hfound).2

theorem pricesKept_close {id : ℕ} {bundle : BundleListing} (h : s.bundles.lookup id = some bundle)
    (ht : t.bundles = s.bundles.insert id { bundle with active := false }) : PricesKept s t := by
  intro other found hfound
  right
  rw [ht, lookup_insert_ite] at hfound
  split at hfound
  · next hother =>
    subst hother
    cases hfound
    exact ⟨bundle, h, rfl⟩
  · exact ⟨found, hfound, rfl⟩

theorem buyBundle_move {buyer : Address} {id : ℕ} (hcall : i.call = .buyBundle buyer id)
    (h : buyBundle house i.toEnv buyer id s = .ok t) : Move i s t := by
  simp only [buyBundle, acquireLock, bind_eq_ok, okOr_eq_ok, pure_eq_ok] at h
  obtain ⟨_, _, _, _, bundle, hbundle, _, _, _, _, _, ⟨_, _, rfl⟩, royalties, _, s₁, hpay, _, _,
    rfl⟩ := h
  rw [payShares_ok hpay]
  exact .sold (by rw [hcall]; trivial) (pricesKept_close hbundle rfl) (fun _ _ h => h) rfl

theorem createBundleListing_move {seller nft token : Address} {tokenIds : List ℕ} {price : ℤ}
    (h : createBundleListing i.toEnv seller nft tokenIds price token s = .ok t) : Move i s t := by
  simp only [createBundleListing, bind_eq_ok, rejectIf_eq_ok, not_le, pure_eq_ok] at h
  obtain ⟨_, _, _, _, _, _, _, hprice, _, _, _, _, _, _, _, _, rfl⟩ := h
  refine .bundled (fun other found hfound => ?_) rfl
  dsimp only at hfound
  rw [lookup_insert_ite] at hfound
  split at hfound
  · cases hfound
    exact .inl hprice
  · exact .inr ⟨found, hfound, rfl⟩

theorem makeCollectionOffer_move {buyer nft : Address} {amount : ℤ} {expiresAt : ℕ}
    (hcall : i.call = .makeCollectionOffer buyer nft amount expiresAt)
    (h : makeCollectionOffer house i.toEnv buyer nft amount expiresAt s = .ok t) : Move i s t := by
  simp only [makeCollectionOffer, bind_eq_ok, okOr_eq_ok, requireAuth_eq_ok, rejectIf_eq_ok,
    not_le, pure_eq_ok] at h
  obtain ⟨token, htoken, _, hamount, _, _, _, hauth, s₁, hpay, rfl⟩ := h
  refine .collectionOffered buyer nft token amount expiresAt hcall hauth htoken hamount ?_
  rw [recordTransfer_ok hpay]

theorem cancelCollectionOffer_move {buyer : Address} {id : ℕ}
    (h : cancelCollectionOffer house i.toEnv buyer id s = .ok t) : Move i s t := by
  simp only [cancelCollectionOffer, bind_eq_ok, okOr_eq_ok, rejectIf_eq_ok, not_not] at h
  obtain ⟨token, htoken, _, _, offer, hoffer, _, rfl, hpay⟩ := h
  exact .collectionCancelled id offer token htoken hoffer (recordTransfer_ok hpay)

theorem setRoyaltySplits_move {admin : Address} {splits : List (Address × ℕ)}
    (h : setRoyaltySplits i.toEnv admin splits s = .ok t) : Move i s t := by
  simp only [setRoyaltySplits, bind_eq_ok, rejectIf_eq_ok, not_lt, pure_eq_ok] at h
  obtain ⟨_, _, _, _, _, _, _, _, total, htotal, _, hle, rfl⟩ := h
  refine .configured (.inr fun stored hstored => ?_) rfl
  dsimp only at hstored
  split at hstored
  · cases hstored
  · cases hstored
    rw [addSplits_ok htotal, Nat.zero_add] at hle
    exact hle

theorem initializeMarketplace_move {admin paymentToken : Address} {royaltyBps : ℕ}
    {royaltyRecipient : Address}
    (h : initializeMarketplace i.toEnv admin paymentToken royaltyBps royaltyRecipient s = .ok t) :
    Move i s t := by
  simp only [initializeMarketplace, bind_eq_ok, rejectIf_eq_ok] at h
  obtain ⟨_, hnone, _⟩ := h
  exact .initialized (by simpa using hnone)

theorem setPaymentTokenAllowed_move {token : Address} {allowed : Bool}
    (h : setPaymentTokenAllowed i.toEnv token allowed s = .ok t) : Move i s t := by
  simp only [setPaymentTokenAllowed, bind_eq_ok, pure_eq_ok] at h
  obtain ⟨_, _, _, _, _, _, rfl⟩ := h
  exact .configured (.inl rfl) rfl

theorem setWhitelistEnabled_move {enabled : Bool}
    (h : setWhitelistEnabled i.toEnv enabled s = .ok t) : Move i s t := by
  simp only [setWhitelistEnabled, bind_eq_ok, pure_eq_ok] at h
  obtain ⟨_, _, _, _, rfl⟩ := h
  exact .configured (.inl rfl) rfl

theorem setStakingContract_move {admin : Address} {stakingContract : Option Address}
    (h : setStakingContract i.toEnv admin stakingContract s = .ok t) : Move i s t := by
  simp only [setStakingContract, bind_eq_ok, pure_eq_ok] at h
  obtain ⟨_, _, _, _, _, _, rfl⟩ := h
  exact .configured (.inl rfl) rfl

theorem setMinCounterOfferBps_move {admin : Address} {bps : ℕ}
    (h : setMinCounterOfferBps i.toEnv admin bps s = .ok t) : Move i s t := by
  simp only [setMinCounterOfferBps, bind_eq_ok, pure_eq_ok] at h
  obtain ⟨_, _, _, _, _, _, _, _, rfl⟩ := h
  exact .configured (.inl rfl) rfl

theorem list_move {seller nftContract : Address} {tokenId : ℕ} {price : ℤ} {paymentToken : Address}
    (hs : Numbered s) (h : list i.toEnv seller nftContract tokenId price paymentToken s = .ok t) :
    Move i s t := by
  simp only [list, bind_eq_ok] at h
  obtain ⟨_, _, h⟩ := h
  exact .relisted (listImpl_relisted hs h)

theorem listWithExpiry_move {seller nftContract : Address} {tokenId : ℕ} {price : ℤ}
    {paymentToken : Address} {expiresAt : ℕ} (hs : Numbered s)
    (h : listWithExpiry i.toEnv seller nftContract tokenId price paymentToken expiresAt s = .ok t) :
    Move i s t := by
  simp only [listWithExpiry, bind_eq_ok] at h
  obtain ⟨_, _, h⟩ := h
  exact .relisted (listImpl_relisted hs h)

theorem listBatch_move {seller : Address} {items : List ListingParams} (hs : Numbered s)
    (h : listBatch i.toEnv seller items s = .ok t) : Move i s t := by
  simp only [listBatch, bind_eq_ok] at h
  obtain ⟨_, _, _, _, h⟩ := h
  exact .relisted (.foldlM (fun _ _ _ hs h => listImpl_relisted hs h) hs h)

theorem listDutch_move {seller nftContract : Address} {tokenId : ℕ} {startPrice endPrice : ℤ}
    {startLedger endLedger : ℕ} {paymentToken : Address} (hs : Numbered s)
    (h : listDutch i.toEnv seller nftContract tokenId startPrice endPrice startLedger endLedger
      paymentToken s = .ok t) : Move i s t := by
  simp only [listDutch, bind_eq_ok] at h
  obtain ⟨_, _, _, _, _, _, _, _, _, _, h⟩ := h
  exact .relisted (addListing_relisted hs h)

theorem cancel_move {seller : Address} {listingId : ℕ} (hs : Numbered s)
    (h : cancel i.toEnv seller listingId s = .ok t) : Move i s t := by
  simp only [cancel, bind_eq_ok] at h
  obtain ⟨_, _, _, _, h⟩ := h
  exact .relisted (cancelImpl_relisted hs h)

theorem cancelBatch_move {seller : Address} {listingIds : List ℕ} (hs : Numbered s)
    (h : cancelBatch i.toEnv seller listingIds s = .ok t) : Move i s t := by
  simp only [cancelBatch, bind_eq_ok] at h
  obtain ⟨_, _, _, _, _, _, h⟩ := h
  exact .relisted (.foldlM (fun _ _ _ hs h => cancelImpl_relisted hs h) hs h)

theorem sweepExpired_move {seller : Address} {listingId : ℕ} (hs : Numbered s)
    (h : sweepExpired i.toEnv seller listingId s = .ok t) : Move i s t := by
  simp only [sweepExpired, getListing, bind_eq_ok, okOr_eq_ok, pure_eq_ok] at h
  obtain ⟨_, _, _, _, listing, hlisting, _, _, _, _, _, _, _, _, rfl⟩ := h
  exact .relisted (closeListing_relisted hs hlisting)

theorem invalidateListing_move {listingId : ℕ} (hs : Numbered s)
    (h : invalidateListing i.toEnv listingId s = .ok t) : Move i s t := by
  simp only [invalidateListing, getListing, bind_eq_ok, okOr_eq_ok] at h
  obtain ⟨_, _, listing, hlisting, _, _, h⟩ := h
  split at h
  · rw [pure_eq_ok] at h
    rw [← h]
    exact .relisted (.refl hs)
  · rw [pure_eq_ok] at h
    rw [← h]
    exact .relisted (closeListing_relisted hs hlisting)

theorem cancelOffer_move {buyer : Address} {listingId : ℕ}
    (h : cancelOffer house i.toEnv buyer listingId s = .ok t) : Move i s t := by
  simp only [cancelOffer, getListing, bind_eq_ok, okOr_eq_ok] at h
  obtain ⟨_, _, _, _, listing, hlisting, offer, hoffer, h⟩ := h
  exact refundOffer_move hlisting hoffer h

theorem expireOffer_move {listingId : ℕ} {buyer : Address}
    (h : expireOffer house i.toEnv listingId buyer s = .ok t) : Move i s t := by
  simp only [expireOffer, getListing, bind_eq_ok, okOr_eq_ok] at h
  obtain ⟨_, _, listing, hlisting, offer, hoffer, _, _, h⟩ := h
  exact refundOffer_move hlisting hoffer h

theorem delistBundle_move {seller : Address} {bundleId : ℕ}
    (h : delistBundle i.toEnv seller bundleId s = .ok t) : Move i s t := by
  simp only [delistBundle, bind_eq_ok, okOr_eq_ok, pure_eq_ok] at h
  obtain ⟨_, _, _, _, bundle, hbundle, _, _, _, _, rfl⟩ := h
  exact .bundled (pricesKept_close hbundle rfl) rfl

theorem exec_move (hs : Numbered s) (h : exec i s = .ok t) : Move i s t := by
  unfold exec at h
  cases hcall : i.call <;> rw [hcall] at h
  case initializeMarketplace => exact initializeMarketplace_move h
  case setPaymentTokenAllowed => exact setPaymentTokenAllowed_move h
  case setWhitelistEnabled => exact setWhitelistEnabled_move h
  case setStakingContract => exact setStakingContract_move h
  case setMinCounterOfferBps => exact setMinCounterOfferBps_move h
  case setRoyaltySplits => exact setRoyaltySplits_move h
  case list => exact list_move hs h
  case listWithExpiry => exact listWithExpiry_move hs h
  case listBatch => exact listBatch_move hs h
  case listDutch => exact listDutch_move hs h
  case cancel => exact cancel_move hs h
  case cancelBatch => exact cancelBatch_move hs h
  case sweepExpired => exact sweepExpired_move hs h
  case invalidateListing => exact invalidateListing_move hs h
  case makeOffer => exact makeOffer_move h
  case makeOffersBatch => exact makeOffersBatch_move hcall h
  case cancelOffer => exact cancelOffer_move h
  case expireOffer => exact expireOffer_move h
  case sweepOffers => exact sweepOffers_move h
  case makeCollectionOffer => exact makeCollectionOffer_move hcall h
  case acceptCollectionOffer => exact acceptCollectionOffer_move hcall h
  case cancelCollectionOffer => exact cancelCollectionOffer_move h
  case createBundleListing => exact createBundleListing_move h
  case buyBundle => exact buyBundle_move hcall h
  case delistBundle => exact delistBundle_move h

end Moves

end SorobanKit.Marketplace
