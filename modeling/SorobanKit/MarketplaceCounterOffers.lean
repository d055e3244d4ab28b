import SorobanKit.HostMaxima
import SorobanKit.MarketplaceShares

set_option autoImplicit false

/-!
# Counter-offers

An offer has to top the highest one by a number of basis points. The marketplace reads the highest
offer off a number next to the offers, which `make_offer` raises and nothing ever lowers: it is the
highest offer that stands for as long as nobody takes back, lowers or batches an offer that no other
buyer has topped.
-/
namespace SorobanKit.Marketplace
open HostBalances HostInteger HostInvocation HostMaxima HostRuns HostTransfers

/-- The amounts that buyers offer on a listing. -/
def stakes (id : ℕ) (s : State) (buyer : Address) : Option ℤ :=
  (s.offers.lookup (id, buyer)).map Offer.amount

/-- Somebody else has `amount` or more on the listing. -/
def Outbid (s : State) (id : ℕ) (buyer : Address) (amount : ℤ) : Prop :=
  Beaten (stakes id s) buyer amount

def Open (s : State) (id : ℕ) : Prop :=
  ∃ listing, s.listings.lookup id = some listing ∧ listing.active = true

/-- The calls that leave the recorded highest offer of every listing among the offers that stand. -/
def KeepsTop (s : State) : Call → Prop
  | .makeOffer buyer id amount _ =>
    offeredOn id buyer s ≤ amount ∨ Outbid s id buyer (offeredOn id buyer s)
  | .makeOffersBatch buyer tokenIds prices _ =>
    ∀ share ∈ offerShares s (tokenIds.zip prices),
      (offerShares s (tokenIds.zip prices)).reverse.lookup share.1 = some share.2 →
        offeredOn share.1 buyer s = share.2 ∨
          Outbid s share.1 buyer (max share.2 (offeredOn share.1 buyer s))
  | .cancelOffer buyer id | .expireOffer id buyer =>
    Open s id → Outbid s id buyer (offeredOn id buyer s)
  | _ => True

theorem outbid_iff {s : State} {id : ℕ} {buyer : Address} {amount : ℤ} :
    (∃ key ∈ s.offers.keys, key.1 = id ∧ key.2 ≠ buyer ∧ amount ≤ offeredOn id key.2 s) ↔
      Outbid s id buyer amount := by
  constructor
  · intro h
    obtain ⟨⟨id, other⟩, hkey, rfl, hother, hle⟩ := h
    obtain ⟨offer, hoffer⟩ := Finmap.mem_iff.mp (Finmap.mem_keys.mp hkey)
    dsimp only at hother hle
    rw [offeredOn, hoffer, Option.map_some, Option.getD_some] at hle
    exact ⟨other, offer.amount, hother, by rw [stakes, hoffer, Option.map_some], hle⟩
  · intro h
    obtain ⟨other, prior, hother, hprior, hle⟩ := h
    have hstake := hprior
    unfold stakes at hprior
    obtain ⟨offer, hoffer, _⟩ := Option.map_eq_some_iff.mp hprior
    refine ⟨(id, other), Finmap.mem_keys.mpr (Finmap.mem_of_lookup_eq_some hoffer), rfl, hother, ?_⟩
    rw [offeredOn, hprior, Option.getD_some]
    exact hle

instance (s : State) (id : ℕ) (buyer : Address) (amount : ℤ) : Decidable (Outbid s id buyer amount) :=
  decidable_of_iff _ outbid_iff

instance (s : State) (id : ℕ) : Decidable (Open s id) :=
  inferInstanceAs (Decidable (∃ listing ∈ s.listings.lookup id, listing.active = true))

instance (s : State) (call : Call) : Decidable (KeepsTop s call) := by
  apply @Call.casesOn (fun call => Decidable (KeepsTop s call)) call
  all_goals intros; unfold KeepsTop; infer_instance

structure TopKept (s : State) : Prop where
  numbered : Numbered s
  fresh : ∀ id, s.listings.lookup id = none →
    (∀ buyer, stakes id s buyer = none) ∧ s.highestOffers.lookup id = none
  topped : ∀ id, Open s id → Tops (stakes id s) (s.highestOffers.lookup id)
  positive : ∀ id highest, s.highestOffers.lookup id = some highest → 0 < highest

/-- The offers are as they were, and a listing that is open in `t` is new or was open in `s`. -/
structure Reshelved (s t : State) : Prop where
  numbered : Numbered t
  kept : ∀ id, t.listings.lookup id = none → s.listings.lookup id = none
  opened : ∀ id, Open t id → s.listings.lookup id = none ∨ Open s id
  same_offers : t.offers = s.offers
  same_highest : t.highestOffers = s.highestOffers

section Listings
variable {env : Env} {s t u : State}

theorem Reshelved.of_listings (hs : Numbered s) (hlistings : t.listings = s.listings)
    (hnext : t.nextListingId = s.nextListingId) (hoffers : t.offers = s.offers)
    (hhighest : t.highestOffers = s.highestOffers) : Reshelved s t := by
  unfold Numbered at hs
  rw [← hlistings, ← hnext] at hs
  constructor
  · exact hs
  · intro id hnone
    rw [← hlistings]
    exact hnone
  · intro id hopen
    right
    unfold Open at hopen
    rw [hlistings] at hopen
    exact hopen
  · exact hoffers
  · exact hhighest

theorem Reshelved.trans (hst : Reshelved s t) (htu : Reshelved t u) : Reshelved s u := by
  constructor
  · exact htu.numbered
  · intro id hnone
    exact hst.kept id (htu.kept id hnone)
  · intro id hopen
    rcases htu.opened id hopen with hnew | hold
    · left
      exact hst.kept id hnew
    · exact hst.opened id hold
  · exact htu.same_offers.trans hst.same_offers
  · exact htu.same_highest.trans hst.same_highest

theorem Reshelved.foldlM {α : Type} {f : State → α → Result MarketplaceError State} {items : List α}
    (hstep : ∀ s t item, Numbered s → f s item = .ok t → Reshelved s t) (hs : Numbered s)
    (h : items.foldlM f s = .ok t) : Reshelved s t := by
  induction items generalizing s with
  | nil =>
    rw [List.foldlM_nil, pure_eq_ok] at h
    rw [← h]
    exact .of_listings hs rfl rfl rfl rfl
  | cons item items ih =>
    rw [List.foldlM_cons, bind_eq_ok] at h
    obtain ⟨s₁, hitem, h⟩ := h
    have hfirst := hstep s s₁ item hs hitem
    exact hfirst.trans (ih hfirst.numbered h)

theorem Reshelved.of_relisted (h : Relisted s t)
    (hopened : ∀ id, Open t id → s.listings.lookup id = none ∨ Open s id) : Reshelved s t := by
  have hsame := h.same
  constructor
  · exact h.numbered
  · intro id hnone
    cases hlisting : s.listings.lookup id with
    | none => rfl
    | some listing =>
      obtain ⟨later, hlater, _⟩ := h.kept id listing hlisting
      rw [hnone] at hlater
      cases hlater
  · exact hopened
  · rw [hsame]
  · rw [hsame]

theorem addListing_reshelved {listing : Listing} (hs : Numbered s)
    (h : addListing listing s = .ok t) : Reshelved s t := by
  apply Reshelved.of_relisted (addListing_relisted hs h)
  simp only [addListing, bind_eq_ok, unwrap_eq_ok, pure_eq_ok] at h
  obtain ⟨_, _, rfl⟩ := h
  intro id hopen
  obtain ⟨found, hfound, hactive⟩ := hopen
  dsimp only at hfound
  rw [lookup_insert_ite] at hfound
  split at hfound
  · next hid =>
    left
    cases hold : s.listings.lookup id with
    | none => rfl
    | some old =>
      have hlt := hs id old hold
      omega
  · right
    exact ⟨found, hfound, hactive⟩

theorem closeListing_reshelved {id : ℕ} {listing : Listing} (hs : Numbered s)
    (hlisting : s.listings.lookup id = some listing) : Reshelved s (closeListing id listing s) := by
  apply Reshelved.of_relisted (closeListing_relisted hs hlisting)
  intro other hopen
  obtain ⟨found, hfound, hactive⟩ := hopen
  unfold closeListing at hfound
  rw [lookup_insert_ite] at hfound
  split at hfound
  · cases hfound
    cases hactive
  · right
    exact ⟨found, hfound, hactive⟩

theorem listImpl_reshelved {seller : Address} {params : ListingParams} (hs : Numbered s)
    (h : listImpl env seller s params = .ok t) : Reshelved s t := by
  simp only [listImpl, bind_eq_ok] at h
  obtain ⟨_, _, _, _, _, _, _, _, h⟩ := h
  exact addListing_reshelved hs h

theorem cancelImpl_reshelved {seller : Address} {id : ℕ} (hs : Numbered s)
    (h : cancelImpl seller s id = .ok t) : Reshelved s t := by
  simp only [cancelImpl, getListing, bind_eq_ok, okOr_eq_ok, pure_eq_ok] at h
  obtain ⟨listing, hlisting, _, _, _, _, rfl⟩ := h
  exact closeListing_reshelved hs hlisting

end Listings

section Calls
variable {house : Address} {env : Env} {s t : State}

theorem setPaymentTokenAllowed_reshelved {token : Address} {allowed : Bool} (hn : Numbered s)
    (h : setPaymentTokenAllowed env token allowed s = .ok t) : Reshelved s t := by
  simp only [setPaymentTokenAllowed, bind_eq_ok, pure_eq_ok] at h
  obtain ⟨_, _, _, _, _, _, rfl⟩ := h
  exact .of_listings hn rfl rfl rfl rfl

theorem setWhitelistEnabled_reshelved {enabled : Bool} (hn : Numbered s)
    (h : setWhitelistEnabled env enabled s = .ok t) : Reshelved s t := by
  simp only [setWhitelistEnabled, bind_eq_ok, pure_eq_ok] at h
  obtain ⟨_, _, _, _, rfl⟩ := h
  exact .of_listings hn rfl rfl rfl rfl

theorem setStakingContract_reshelved {admin : Address} {stakingContract : Option Address}
    (hn : Numbered s) (h : setStakingContract env admin stakingContract s = .ok t) :
    Reshelved s t := by
  simp only [setStakingContract, bind_eq_ok, pure_eq_ok] at h
  obtain ⟨_, _, _, _, _, _, rfl⟩ := h
  exact .of_listings hn rfl rfl rfl rfl

theorem setMinCounterOfferBps_reshelved {admin : Address} {bps : ℕ} (hn : Numbered s)
    (h : setMinCounterOfferBps env admin bps s = .ok t) : Reshelved s t := by
  simp only [setMinCounterOfferBps, bind_eq_ok, pure_eq_ok] at h
  obtain ⟨_, _, _, _, _, _, _, _, rfl⟩ := h
  exact .of_listings hn rfl rfl rfl rfl

theorem setRoyaltySplits_reshelved {admin : Address} {splits : List (Address × ℕ)} (hn : Numbered s)
    (h : setRoyaltySplits env admin splits s = .ok t) : Reshelved s t := by
  simp only [setRoyaltySplits, bind_eq_ok, pure_eq_ok] at h
  obtain ⟨_, _, _, _, _, _, _, _, _, _, _, _, rfl⟩ := h
  exact .of_listings hn rfl rfl rfl rfl

theorem list_reshelved {seller nftContract : Address} {tokenId : ℕ} {price : ℤ}
    {paymentToken : Address} (hn : Numbered s)
    (h : list env seller nftContract tokenId price paymentToken s = .ok t) : Reshelved s t := by
  simp only [list, bind_eq_ok] at h
  obtain ⟨_, _, h⟩ := h
  exact listImpl_reshelved hn h

theorem listWithExpiry_reshelved {seller nftContract : Address} {tokenId : ℕ} {price : ℤ}
    {paymentToken : Address} {expiresAt : ℕ} (hn : Numbered s)
    (h : listWithExpiry env seller nftContract tokenId price paymentToken expiresAt s = .ok t) :
    Reshelved s t := by
  simp only [listWithExpiry, bind_eq_ok] at h
  obtain ⟨_, _, h⟩ := h
  exact listImpl_reshelved hn h

theorem listBatch_reshelved {seller : Address} {items : List ListingParams} (hn : Numbered s)
    (h : listBatch env seller items s = .ok t) : Reshelved s t := by
  simp only [listBatch, bind_eq_ok] at h
  obtain ⟨_, _, _, _, h⟩ := h
  exact .foldlM (fun _ _ _ hn h => listImpl_reshelved hn h) hn h

theorem listDutch_reshelved {seller nftContract : Address} {tokenId : ℕ} {startPrice endPrice : ℤ}
    {startLedger endLedger : ℕ} {paymentToken : Address} (hn : Numbered s)
    (h : listDutch env seller nftContract tokenId startPrice endPrice startLedger endLedger
      paymentToken s = .ok t) : Reshelved s t := by
  simp only [listDutch, bind_eq_ok] at h
  obtain ⟨_, _, _, _, _, _, _, _, _, _, h⟩ := h
  exact addListing_reshelved hn h

theorem cancel_reshelved {seller : Address} {listingId : ℕ} (hn : Numbered s)
    (h : cancel env seller listingId s = .ok t) : Reshelved s t := by
  simp only [cancel, bind_eq_ok] at h
  obtain ⟨_, _, _, _, h⟩ := h
  exact cancelImpl_reshelved hn h

theorem cancelBatch_reshelved {seller : Address} {listingIds : List ℕ} (hn : Numbered s)
    (h : cancelBatch env seller listingIds s = .ok t) : Reshelved s t := by
  simp only [cancelBatch, bind_eq_ok] at h
  obtain ⟨_, _, _, _, _, _, h⟩ := h
  exact .foldlM (fun _ _ _ hn h => cancelImpl_reshelved hn h) hn h

theorem sweepExpired_reshelved {seller : Address} {listingId : ℕ} (hn : Numbered s)
    (h : sweepExpired env seller listingId s = .ok t) : Reshelved s t := by
  simp only [sweepExpired, getListing, bind_eq_ok, okOr_eq_ok, pure_eq_ok] at h
  obtain ⟨_, _, _, _, listing, hlisting, _, _, _, _, _, _, _, _, rfl⟩ := h
  exact closeListing_reshelved hn hlisting

theorem invalidateListing_reshelved {listingId : ℕ} (hn : Numbered s)
    (h : invalidateListing env listingId s = .ok t) : Reshelved s t := by
  simp only [invalidateListing, getListing, bind_eq_ok, okOr_eq_ok] at h
  obtain ⟨_, _, listing, hlisting, _, _, h⟩ := h
  split at h
  · rw [pure_eq_ok] at h
    rw [← h]
    exact .of_listings hn rfl rfl rfl rfl
  · rw [pure_eq_ok] at h
    rw [← h]
    exact closeListing_reshelved hn hlisting

theorem makeCollectionOffer_reshelved {buyer nftContract : Address} {amount : ℤ} {expiresAt : ℕ}
    (hn : Numbered s)
    (h : makeCollectionOffer house env buyer nftContract amount expiresAt s = .ok t) :
    Reshelved s t := by
  simp only [makeCollectionOffer, bind_eq_ok, pure_eq_ok] at h
  obtain ⟨_, _, _, _, _, _, _, _, s₁, hpay, rfl⟩ := h
  rw [recordTransfer_ok hpay]
  exact .of_listings hn rfl rfl rfl rfl

theorem acceptCollectionOffer_reshelved {seller : Address} {offerId tokenId : ℕ} (hn : Numbered s)
    (h : acceptCollectionOffer house env seller offerId tokenId s = .ok t) : Reshelved s t := by
  simp only [acceptCollectionOffer, bind_eq_ok] at h
  obtain ⟨_, _, _, _, _, _, _, _, _, _, hsettle⟩ := h
  obtain ⟨_, _, rfl⟩ := settleSale_ok hsettle
  exact .of_listings hn rfl rfl rfl rfl

theorem cancelCollectionOffer_reshelved {buyer : Address} {offerId : ℕ} (hn : Numbered s)
    (h : cancelCollectionOffer house env buyer offerId s = .ok t) : Reshelved s t := by
  simp only [cancelCollectionOffer, bind_eq_ok] at h
  obtain ⟨_, _, _, _, _, _, _, _, hpay⟩ := h
  rw [recordTransfer_ok hpay]
  exact .of_listings hn rfl rfl rfl rfl

theorem createBundleListing_reshelved {seller nftContract : Address} {tokenIds : List ℕ}
    {totalPrice : ℤ} {paymentToken : Address} (hn : Numbered s)
    (h : createBundleListing env seller nftContract tokenIds totalPrice paymentToken s = .ok t) :
    Reshelved s t := by
  simp only [createBundleListing, bind_eq_ok, pure_eq_ok] at h
  obtain ⟨_, _, _, _, _, _, _, _, _, _, _, _, _, _, _, _, rfl⟩ := h
  exact .of_listings hn rfl rfl rfl rfl

theorem buyBundle_reshelved {buyer : Address} {bundleId : ℕ} (hn : Numbered s)
    (h : buyBundle house env buyer bundleId s = .ok t) : Reshelved s t := by
  simp only [buyBundle, acquireLock, bind_eq_ok, pure_eq_ok] at h
  obtain ⟨_, _, _, _, _, _, _, _, _, _, _, ⟨_, _, rfl⟩, _, _, _, hpay, _, _, rfl⟩ := h
  rw [payShares_ok hpay]
  exact .of_listings hn rfl rfl rfl rfl

theorem delistBundle_reshelved {seller : Address} {bundleId : ℕ} (hn : Numbered s)
    (h : delistBundle env seller bundleId s = .ok t) : Reshelved s t := by
  simp only [delistBundle, bind_eq_ok, pure_eq_ok] at h
  obtain ⟨_, _, _, _, _, _, _, _, _, _, rfl⟩ := h
  exact .of_listings hn rfl rfl rfl rfl

end Calls

section Stakes
variable {house : Address} {env : Env} {s t : State} {id : ℕ} {buyer : Address} {amount : ℤ}

theorem offeredOn_eq {prior : ℤ} (h : stakes id s buyer = some prior) :
    offeredOn id buyer s = prior := by
  unfold stakes at h
  rw [offeredOn, h, Option.getD_some]

theorem raiseHighest_lookup (hamount : 0 < amount) (other : ℕ) :
    (raiseHighest id amount s).highestOffers.lookup other =
      if other = id then some ((s.highestOffers.lookup id).elim amount (max · amount))
      else s.highestOffers.lookup other := by
  unfold raiseHighest
  cases htop : s.highestOffers.lookup id with
  | none =>
    rw [Option.getD_none, if_pos hamount]
    exact lookup_insert_ite _ _ _ _
  | some highest =>
    rw [Option.getD_some, Option.elim_some]
    by_cases hless : highest < amount
    · rw [if_pos hless, max_eq_right hless.le]
      exact lookup_insert_ite _ _ _ _
    · rw [if_neg hless, max_eq_left (not_lt.mp hless)]
      by_cases hother : other = id
      · rw [hother, htop, if_pos rfl]
      · rw [if_neg hother]

theorem makeOffer_ok {expirationLedger : ℕ}
    (h : makeOffer house env buyer id amount expirationLedger s = .ok t) :
    0 < amount ∧ Open s id ∧
      t = { s with
        offers := s.offers.insert (id, buyer) ⟨amount, expirationLedger⟩,
        highestOffers := (raiseHighest id amount s).highestOffers,
        transfers := t.transfers } := by
  simp only [makeOffer, getListing, bind_eq_ok, okOr_eq_ok, rejectIf_eq_ok, not_or, not_le, not_not,
    pure_eq_ok] at h
  obtain ⟨_, _, _, _, listing, hlisting, _, hactive, _, hamount, _, _, _, _, s₁, hpay, rfl⟩ := h
  refine ⟨hamount.1, ⟨listing, hlisting, hactive⟩, ?_⟩
  rw [raiseHighest_eq, payDelta_ok hpay]
  unfold raiseHighest
  dsimp only
  split <;> rfl

theorem refundOffer_ok {token : Address} {offer : Offer}
    (h : refundOffer house env id token buyer offer s = .ok t) :
    t = { s with offers := s.offers.erase (id, buyer), transfers := t.transfers } := by
  rw [recordTransfer_ok h]

theorem sweep_elsewhere {token : Address} {buyers : List Address} {other : ℕ} (hother : other ≠ id)
    (h : buyers.foldlM (sweepOne house env id token) s = .ok t) : stakes other t = stakes other s := by
  induction buyers generalizing s with
  | nil =>
    rw [List.foldlM_nil, pure_eq_ok] at h
    rw [h]
  | cons buyer buyers ih =>
    rw [List.foldlM_cons, bind_eq_ok] at h
    obtain ⟨s₁, hone, h⟩ := h
    rw [ih h]
    unfold sweepOne at hone
    split at hone
    · funext holder
      have hkey : (other, holder) ≠ (id, buyer) := fun heq => hother (Prod.mk.inj heq).1
      rw [stakes, stakes, refundOffer_ok hone]
      dsimp only
      rw [Finmap.lookup_erase_ne hkey]
    · rw [pure_eq_ok] at hone
      rw [hone]

theorem storeShares_lookup_amount (holder : Address) (expiration : ℕ) (shares : List (ℕ × ℤ))
    (offers : Finmap (fun _ : ℕ × Address => Offer)) (other : ℕ) :
    ((storeShares buyer expiration shares offers).lookup (other, holder)).map Offer.amount =
      if holder = buyer then
        (shares.reverse.lookup other).or ((offers.lookup (other, holder)).map Offer.amount)
      else (offers.lookup (other, holder)).map Offer.amount := by
  induction shares using List.reverseRecOn with
  | nil => simp [storeShares]
  | append_singleton shares last ih =>
    unfold storeShares at ih ⊢
    rw [List.foldl_append, List.foldl_cons, List.foldl_nil, lookup_insert_ite,
      List.reverse_concat, List.lookup_cons]
    by_cases hholder : holder = buyer
    · rw [if_pos hholder] at ih ⊢
      by_cases hid : other = last.1
      · simp [hholder, hid]
      · have hkey : ¬ (other, holder) = (last.1, buyer) := fun heq => hid (Prod.mk.inj heq).1
        have hbeq : (other == last.1) = false := beq_eq_false_iff_ne.mpr hid
        rw [if_neg hkey, hbeq]
        exact ih
    · have hkey : ¬ (other, holder) = (last.1, buyer) := fun heq => hholder (Prod.mk.inj heq).2
      rw [if_neg hholder] at ih ⊢
      rw [if_neg hkey]
      exact ih

end Stakes

section Tops
variable {house : Address} {i : Invocation house} {s t : State} {id : ℕ} {buyer : Address}

theorem topKept_of_empty (hlistings : s.listings = ∅) (hoffers : s.offers = ∅)
    (hhighest : s.highestOffers = ∅) : TopKept s := by
  constructor
  · intro id listing h
    rw [hlistings] at h
    cases h
  · intro id _
    rw [hhighest]
    unfold stakes
    rw [hoffers]
    exact ⟨fun _ => rfl, rfl⟩
  · intro id hopen
    obtain ⟨listing, h, _⟩ := hopen
    rw [hlistings] at h
    cases h
  · intro id highest h
    rw [hhighest] at h
    cases h

theorem TopKept.reshelved (hs : TopKept s) (h : Reshelved s t) : TopKept t := by
  have hstakes : ∀ id, stakes id t = stakes id s := by
    intro id
    funext buyer
    rw [stakes, stakes, h.same_offers]
  constructor
  · exact h.numbered
  · intro id hnew
    rw [hstakes, h.same_highest]
    exact hs.fresh id (h.kept id hnew)
  · intro id hopen
    rw [hstakes, h.same_highest]
    rcases h.opened id hopen with hnew | hold
    · obtain ⟨hnone, htop⟩ := hs.fresh id hnew
      rw [htop]
      exact tops_none hnone
    · exact hs.topped id hold
  · rw [h.same_highest]
    exact hs.positive

theorem TopKept.other (hs : TopKept s) (hlistings : t.listings = s.listings)
    (hnext : t.nextListingId = s.nextListingId) (hoffers : t.offers = s.offers)
    (hhighest : t.highestOffers = s.highestOffers) : TopKept t :=
  hs.reshelved (.of_listings hs.numbered hlistings hnext hoffers hhighest)

/-- Offers change on listings that there are. -/
theorem TopKept.traded (hs : TopKept s) (hlistings : t.listings = s.listings)
    (hnext : t.nextListingId = s.nextListingId)
    (hnew : ∀ id, s.listings.lookup id = none →
      stakes id t = stakes id s ∧ t.highestOffers.lookup id = s.highestOffers.lookup id)
    (htopped : ∀ id, Open s id → Tops (stakes id t) (t.highestOffers.lookup id))
    (hpositive : ∀ id highest, t.highestOffers.lookup id = some highest → 0 < highest) :
    TopKept t := by
  constructor
  · unfold Numbered
    rw [hlistings, hnext]
    exact hs.numbered
  · intro id hnone
    rw [hlistings] at hnone
    obtain ⟨hstakes, hhighest⟩ := hnew id hnone
    rw [hstakes, hhighest]
    exact hs.fresh id hnone
  · intro id hopen
    unfold Open at hopen
    rw [hlistings] at hopen
    exact htopped id hopen
  · exact hpositive

theorem TopKept.makeOffer (hs : TopKept s) {amount : ℤ} {expirationLedger : ℕ}
    (hkeeps : KeepsTop s (.makeOffer buyer id amount expirationLedger))
    (h : makeOffer house i.toEnv buyer id amount expirationLedger s = .ok t) : TopKept t := by
  obtain ⟨hamount, hopen, ht⟩ := makeOffer_ok h
  have hhighest : ∀ other, (raiseHighest id amount s).highestOffers.lookup other =
      if other = id then some ((s.highestOffers.lookup id).elim amount (max · amount))
      else s.highestOffers.lookup other := raiseHighest_lookup hamount
  have helsewhere : ∀ other, other ≠ id → stakes other t = stakes other s := by
    intro other hother
    funext holder
    have hkey : ¬ (other, holder) = (id, buyer) := fun heq => hother (Prod.mk.inj heq).1
    rw [ht, stakes, stakes]
    dsimp only
    rw [Finmap.lookup_insert_of_ne _ hkey]
  have hothers : ∀ holder, holder ≠ buyer → stakes id t holder = stakes id s holder := by
    intro holder hholder
    have hkey : ¬ (id, holder) = (id, buyer) := fun heq => hholder (Prod.mk.inj heq).2
    rw [ht, stakes, stakes]
    dsimp only
    rw [Finmap.lookup_insert_of_ne _ hkey]
  have hself : stakes id t buyer = some amount := by
    rw [ht, stakes]
    dsimp only
    rw [Finmap.lookup_insert, Option.map_some]
  have htops : Tops (stakes id t) (some ((s.highestOffers.lookup id).elim amount (max · amount))) := by
    apply (hs.topped id hopen).raise hothers hself
    intro prior hprior
    rw [← offeredOn_eq hprior]
    exact hkeeps
  apply hs.traded (by rw [ht]) (by rw [ht])
  · intro other hnone
    have hother : other ≠ id := by
      intro heq
      obtain ⟨listing, hlisting, _⟩ := hopen
      rw [← heq, hnone] at hlisting
      cases hlisting
    rw [ht]
    dsimp only
    rw [hhighest, if_neg hother, ← ht]
    exact ⟨helsewhere other hother, rfl⟩
  · intro other hother
    rw [ht]
    dsimp only
    rw [hhighest, ← ht]
    split
    · next heq =>
      rw [heq]
      exact htops
    · next hne =>
      rw [helsewhere other hne]
      exact hs.topped other hother
  · intro other highest hstored
    rw [ht] at hstored
    dsimp only at hstored
    rw [hhighest] at hstored
    split at hstored
    · cases hstored
      cases s.highestOffers.lookup id with
      | none => exact hamount
      | some old => exact lt_max_of_lt_right hamount
    · exact hs.positive other highest hstored

theorem TopKept.restaked (hs : TopKept s) (hsame : t = { s with
      offers := t.offers, transfers := t.transfers, locked := t.locked })
    (hnew : ∀ id, s.listings.lookup id = none → stakes id t = stakes id s)
    (htopped : ∀ id, Open s id → Tops (stakes id t) (s.highestOffers.lookup id)) : TopKept t := by
  have hhighest : t.highestOffers = s.highestOffers := by rw [hsame]
  apply hs.traded (by rw [hsame]) (by rw [hsame])
  · intro id hnone
    rw [hhighest]
    exact ⟨hnew id hnone, rfl⟩
  · intro id hopen
    rw [hhighest]
    exact htopped id hopen
  · rw [hhighest]
    exact hs.positive

theorem TopKept.refundOffer (hs : TopKept s) {token : Address} {offer : Offer} {listing : Listing}
    (hlisting : s.listings.lookup id = some listing)
    (hkeeps : Open s id → Outbid s id buyer (offeredOn id buyer s))
    (h : refundOffer house i.toEnv id token buyer offer s = .ok t) : TopKept t := by
  have ht := refundOffer_ok h
  have hothers : ∀ other holder, (other, holder) ≠ (id, buyer) →
      stakes other t holder = stakes other s holder := by
    intro other holder hkey
    rw [ht, stakes, stakes]
    dsimp only
    rw [Finmap.lookup_erase_ne hkey]
  have helsewhere : ∀ other, other ≠ id → stakes other t = stakes other s := by
    intro other hother
    funext holder
    exact hothers other holder fun heq => hother (Prod.mk.inj heq).1
  apply hs.restaked (by rw [ht])
  · intro other hnone
    apply helsewhere
    intro heq
    rw [heq, hlisting] at hnone
    cases hnone
  · intro other hopen
    by_cases hother : other = id
    · subst hother
      apply (hs.topped other hopen).change (k := buyer)
      · intro holder hholder
        exact hothers other holder fun heq => hholder (Prod.mk.inj heq).2
      · intro prior hprior
        rw [← offeredOn_eq hprior]
        exact hkeeps hopen
      · intro prior hprior
        rw [ht, stakes] at hprior
        dsimp only at hprior
        rw [Finmap.lookup_erase] at hprior
        cases hprior
    · rw [helsewhere other hother]
      exact hs.topped other hopen

theorem TopKept.sweepOffers (hs : TopKept s) {buyers : List Address}
    (h : sweepOffers house i.toEnv id buyers s = .ok t) : TopKept t := by
  simp only [Marketplace.sweepOffers, acquireLock, getListing, bind_eq_ok, okOr_eq_ok, rejectIf_eq_ok,
    pure_eq_ok] at h
  obtain ⟨_, _, _, _, listing, hlisting, _, hinactive, _, ⟨_, _, rfl⟩, u, hfold, rfl⟩ := h
  have helsewhere : ∀ other, other ≠ id → stakes other (releaseLock u) = stakes other s := by
    intro other hother
    change stakes other u = stakes other { s with locked := true }
    exact sweep_elsewhere hother hfold
  have hsame := sweep_same hfold
  apply hs.restaked (by rw [hsame]; rfl)
  · intro other hnone
    apply helsewhere
    intro heq
    rw [heq, hlisting] at hnone
    cases hnone
  · intro other hopen
    have hother : other ≠ id := by
      intro heq
      obtain ⟨found, hfound, hactive⟩ := hopen
      rw [heq, hlisting] at hfound
      cases hfound
      exact hinactive hactive
    rw [helsewhere other hother]
    exact hs.topped other hopen

theorem stakes_of_offeredOn {listingId : ℕ} {amount : ℤ} (hpos : 0 < amount)
    (h : offeredOn listingId buyer s = amount) : stakes listingId s buyer = some amount := by
  unfold offeredOn at h
  unfold stakes
  cases hoffer : (s.offers.lookup (listingId, buyer)).map Offer.amount with
  | none =>
    rw [hoffer, Option.getD_none] at h
    omega
  | some prior =>
    rw [hoffer, Option.getD_some] at h
    rw [h]

theorem TopKept.storeShares (hs : TopKept s) {expiration : ℕ} {shares : List (ℕ × ℤ)}
    {xs : List (Transfer Purpose)}
    (hshares : ∀ share ∈ shares, 0 < share.2 ∧ ∃ listing, s.listings.lookup share.1 = some listing)
    (hkeeps : ∀ share ∈ shares, shares.reverse.lookup share.1 = some share.2 →
      offeredOn share.1 buyer s = share.2 ∨
        Outbid s share.1 buyer (max share.2 (offeredOn share.1 buyer s)))
    (ht : t = { s with
      offers := storeShares buyer expiration shares s.offers, transfers := xs }) : TopKept t := by
  have hstakes : ∀ other holder, stakes other t holder = if holder = buyer then
      (shares.reverse.lookup other).or (stakes other s holder) else stakes other s holder := by
    intro other holder
    rw [ht]
    exact storeShares_lookup_amount holder expiration shares s.offers other
  have huntouched : ∀ other, shares.reverse.lookup other = none →
      stakes other t = stakes other s := by
    intro other hnone
    funext holder
    rw [hstakes, hnone]
    simp
  have hmem : ∀ other amount, shares.reverse.lookup other = some amount →
      (other, amount) ∈ shares := by
    intro other amount hlast
    obtain ⟨before, after, hsplit, _⟩ := List.lookup_eq_some_iff.mp hlast
    apply List.mem_reverse.mp
    rw [hsplit]
    exact List.mem_append_right _ List.mem_cons_self
  apply hs.restaked (by rw [ht])
  · intro other hnone
    apply huntouched
    cases hlast : shares.reverse.lookup other with
    | none => rfl
    | some amount =>
      obtain ⟨_, listing, hlisting⟩ := hshares _ (hmem other amount hlast)
      rw [hnone] at hlisting
      cases hlisting
  · intro other hopen
    cases hlast : shares.reverse.lookup other with
    | none =>
      rw [huntouched other hlast]
      exact hs.topped other hopen
    | some amount =>
      have hself : stakes other t buyer = some amount := by
        rw [hstakes, if_pos rfl, hlast, Option.some_or]
      have hothers : ∀ holder, holder ≠ buyer → stakes other t holder = stakes other s holder := by
        intro holder hholder
        rw [hstakes, if_neg hholder]
      rcases hkeeps _ (hmem other amount hlast) hlast with hsame | houtbid
      · have hstored := stakes_of_offeredOn (hshares _ (hmem other amount hlast)).1 hsame
        have hkept : stakes other t = stakes other s := by
          funext holder
          by_cases hholder : holder = buyer
          · rw [hholder, hself, hstored]
          · exact hothers holder hholder
        rw [hkept]
        exact hs.topped other hopen
      · apply (hs.topped other hopen).change hothers
        · intro prior hprior
          rw [← offeredOn_eq hprior]
          exact houtbid.mono (le_max_right _ _)
        · intro stored hstored
          rw [hself] at hstored
          cases hstored
          exact houtbid.mono (le_max_left _ _)

theorem TopKept.makeOffersBatch (hs : TopKept s) {tokenIds : List ℕ} {prices : List ℤ}
    {expiration : ℕ} (hkeeps : KeepsTop s (.makeOffersBatch buyer tokenIds prices expiration))
    (h : makeOffersBatch house i.toEnv buyer tokenIds prices expiration s = .ok t) : TopKept t := by
  simp only [Marketplace.makeOffersBatch, bind_eq_ok] at h
  obtain ⟨_, _, _, _, _, _, _, _, _, _, token, _, total, hcheck, s₁, hpay, hstore⟩ := h
  obtain ⟨_, hshares⟩ := checkOffers_ok hcheck
  have ht := storeOffers_ok hstore
  rw [recordTransfer_ok hpay] at ht
  apply hs.storeShares (fun share hshare => ?_) hkeeps ht
  obtain ⟨hpos, listing, hlisting, _⟩ := hshares share hshare
  exact ⟨hpos, listing, hlisting⟩

theorem initializeMarketplace_first {admin paymentToken royaltyRecipient : Address} {royaltyBps : ℕ}
    (h : initializeMarketplace i.toEnv admin paymentToken royaltyBps royaltyRecipient s = .ok t) :
    ¬ s.admin.isSome := by
  simp only [initializeMarketplace, bind_eq_ok, rejectIf_eq_ok] at h
  obtain ⟨_, hnone, _⟩ := h
  exact hnone

theorem TopKept.cancelOffer (hs : TopKept s) (hkeeps : KeepsTop s (.cancelOffer buyer id))
    (h : cancelOffer house i.toEnv buyer id s = .ok t) : TopKept t := by
  simp only [Marketplace.cancelOffer, getListing, bind_eq_ok, okOr_eq_ok] at h
  obtain ⟨_, _, _, _, listing, hlisting, offer, _, h⟩ := h
  exact hs.refundOffer hlisting hkeeps h

theorem TopKept.expireOffer (hs : TopKept s) (hkeeps : KeepsTop s (.expireOffer id buyer))
    (h : expireOffer house i.toEnv id buyer s = .ok t) : TopKept t := by
  simp only [Marketplace.expireOffer, getListing, bind_eq_ok, okOr_eq_ok] at h
  obtain ⟨_, _, listing, hlisting, offer, _, _, _, h⟩ := h
  exact hs.refundOffer hlisting hkeeps h

theorem exec_topKept (hadmin : s.admin.isSome) (hs : TopKept s) (hkeeps : KeepsTop s i.call)
    (h : exec i s = .ok t) : TopKept t := by
  have hn := hs.numbered
  unfold exec at h
  generalize i.call = call at h hkeeps
  cases call
  case initializeMarketplace => exact absurd hadmin (initializeMarketplace_first h)
  case setPaymentTokenAllowed => exact hs.reshelved (setPaymentTokenAllowed_reshelved hn h)
  case setWhitelistEnabled => exact hs.reshelved (setWhitelistEnabled_reshelved hn h)
  case setStakingContract => exact hs.reshelved (setStakingContract_reshelved hn h)
  case setMinCounterOfferBps => exact hs.reshelved (setMinCounterOfferBps_reshelved hn h)
  case setRoyaltySplits => exact hs.reshelved (setRoyaltySplits_reshelved hn h)
  case list => exact hs.reshelved (list_reshelved hn h)
  case listWithExpiry => exact hs.reshelved (listWithExpiry_reshelved hn h)
  case listBatch => exact hs.reshelved (listBatch_reshelved hn h)
  case listDutch => exact hs.reshelved (listDutch_reshelved hn h)
  case cancel => exact hs.reshelved (cancel_reshelved hn h)
  case cancelBatch => exact hs.reshelved (cancelBatch_reshelved hn h)
  case sweepExpired => exact hs.reshelved (sweepExpired_reshelved hn h)
  case invalidateListing => exact hs.reshelved (invalidateListing_reshelved hn h)
  case makeOffer => exact hs.makeOffer hkeeps h
  case makeOffersBatch => exact hs.makeOffersBatch hkeeps h
  case cancelOffer => exact hs.cancelOffer hkeeps h
  case expireOffer => exact hs.expireOffer hkeeps h
  case sweepOffers => exact hs.sweepOffers h
  case makeCollectionOffer => exact hs.reshelved (makeCollectionOffer_reshelved hn h)
  case acceptCollectionOffer => exact hs.reshelved (acceptCollectionOffer_reshelved hn h)
  case cancelCollectionOffer => exact hs.reshelved (cancelCollectionOffer_reshelved hn h)
  case createBundleListing => exact hs.reshelved (createBundleListing_reshelved hn h)
  case buyBundle => exact hs.reshelved (buyBundle_reshelved hn h)
  case delistBundle => exact hs.reshelved (delistBundle_reshelved hn h)

end Tops

section Counters
variable {house : Address} {env : Env} {s : State} {id b : ℕ} {buyer : Address} {amount : ℤ}

theorem minCounterOfferAmount_eq_ok {highest minRequired : ℤ} (hhighest : 0 < highest) :
    minCounterOfferAmount highest b = .ok minRequired ↔
      InI128 (highest * (10000 + b)) ∧ minRequired = highest * (10000 + b) / 10000 := by
  have hproduct : 0 ≤ highest * (10000 + b) := Int.mul_nonneg hhighest.le (by omega)
  have hquotient := Int.ediv_nonneg hproduct (show (0 : ℤ) ≤ 10000 by decide)
  have hle := Int.ediv_le_self 10000 hproduct
  simp only [minCounterOfferAmount, bind_eq_ok, okOr_eq_ok, checkedMul_eq_some, checked_eq_some]
  constructor
  · intro h
    obtain ⟨numerator, ⟨hfits, rfl⟩, _, rfl⟩ := h
    exact ⟨hfits, Int.tdiv_eq_ediv_of_nonneg hproduct⟩
  · intro h
    obtain ⟨hfits, rfl⟩ := h
    refine ⟨_, ⟨hfits, rfl⟩, ?_⟩
    rw [Int.tdiv_eq_ediv_of_nonneg hproduct]
    unfold InI128 at hfits ⊢
    exact ⟨by omega, rfl⟩

theorem requireCounterOffer_low_iff (hbps : s.minCounterOfferBps = some b) (hb : 0 < b) :
    requireCounterOffer id amount s = .error (.error .counterOfferTooLow) ↔
      ∃ highest, s.highestOffers.lookup id = some highest ∧
        ∃ minRequired, minCounterOfferAmount highest b = .ok minRequired ∧ amount < minRequired := by
  unfold requireCounterOffer
  rw [hbps, Option.getD_some]
  dsimp only
  cases s.highestOffers.lookup id with
  | none =>
    constructor
    · intro h
      cases h
    · intro h
      obtain ⟨_, hnone, _⟩ := h
      cases hnone
  | some highest =>
    simp only [hb, if_true, bind_eq_error, rejectIf_eq_error, Option.some.injEq, exists_eq_left']
    constructor
    · intro h
      rcases h with hnumerator | ⟨minRequired, hmin, hlow, _⟩
      · simp [minCounterOfferAmount, bind_eq_error, okOr_eq_error] at hnumerator
      · exact ⟨minRequired, hmin, hlow⟩
    · intro h
      obtain ⟨minRequired, hmin, hlow⟩ := h
      exact .inr ⟨minRequired, hmin, hlow, trivial⟩

theorem payDelta_error {token : Address} {prior : ℤ} {e : Failure MarketplaceError}
    (h : payDelta house env id token buyer prior amount s = .error e) : e = .trap := by
  have htransfer : ∀ x, callTransfer env x s = .error e → e = .trap := by
    intro x hx
    unfold callTransfer recordTransfer trapUnless at hx
    split at hx
    · cases hx
    · cases hx
      rfl
  unfold payDelta at h
  split at h
  · exact htransfer _ h
  · split at h
    · exact htransfer _ h
    · cases h

theorem makeOffer_low_iff {listing : Listing} {expirationLedger : ℕ} (hadmin : s.admin.isSome)
    (hauth : buyer ∈ env.auths) (hlisting : s.listings.lookup id = some listing)
    (hactive : listing.active = true) (hamount : 0 < amount) (hprice : amount < listing.price)
    (hexpiry : env.sequence < expirationLedger) :
    makeOffer house env buyer id amount expirationLedger s = .error (.error .counterOfferTooLow) ↔
      requireCounterOffer id amount s = .error (.error .counterOfferTooLow) := by
  have hinit : s.requireInitialized = .ok () := rejectIf_eq_ok.mpr fun hnone => by
    rw [Option.isNone_iff_eq_none.mp hnone] at hadmin
    cases hadmin
  have hsigned : requireAuth env.toContext buyer = (.ok () : Result MarketplaceError Unit) :=
    requireAuth_eq_ok.mpr hauth
  have hfound : getListing id s = .ok listing := okOr_eq_ok.mpr hlisting
  have hopen : rejectIf (¬ listing.active) MarketplaceError.listingInactive = .ok () :=
    rejectIf_eq_ok.mpr (by simp [hactive])
  have hpriced : rejectIf (amount ≤ 0 ∨ listing.price ≤ amount)
      MarketplaceError.invalidOfferAmount = .ok () := rejectIf_eq_ok.mpr (by omega)
  have hlater : rejectIf (expirationLedger ≤ env.sequence) MarketplaceError.invalidExpiry = .ok () :=
    rejectIf_eq_ok.mpr (by omega)
  unfold makeOffer
  rw [hinit, ok_bind, hsigned, ok_bind, hfound, ok_bind, hopen, ok_bind, hpriced, ok_bind, hlater,
    ok_bind, bind_eq_error]
  constructor
  · intro h
    rcases h with hlow | ⟨_, _, hpay⟩
    · exact hlow
    · rcases bind_eq_error.mp hpay with htrap | ⟨_, _, hdone⟩
      · cases payDelta_error htrap
      · cases hdone
  · intro hlow
    exact .inl hlow

/-- Where the recorded highest offer is the highest that stands, the rule can only fail in the
    rounding and in the overflow of the required amount. -/
theorem TopKept.low_iff (hs : TopKept s) (hopen : Open s id)
    (hbps : s.minCounterOfferBps = some b) (hb : 0 < b) :
    (requireCounterOffer id amount s = .error (.error .counterOfferTooLow) ↔
      ∃ other offer, s.offers.lookup (id, other) = some offer ∧
        amount * 10000 < offer.amount * (10000 + b)) ↔
    ∀ highest, s.highestOffers.lookup id = some highest →
      amount * 10000 < highest * (10000 + b) →
        InI128 (highest * (10000 + b)) ∧ amount ≠ highest * (10000 + b) / 10000 := by
  have htop := (hs.topped id hopen).exists_iff (P := fun h => amount * 10000 < h * (10000 + b))
    (fun v w hvw hv => lt_of_lt_of_le hv (Int.mul_le_mul_of_nonneg_right hvw (by omega)))
  have hstored : (∃ other offer, s.offers.lookup (id, other) = some offer ∧
      amount * 10000 < offer.amount * (10000 + b)) ↔
      ∃ highest, s.highestOffers.lookup id = some highest ∧
        amount * 10000 < highest * (10000 + b) := by
    rw [← htop]
    apply exists_congr
    intro other
    simp [stakes]
  rw [requireCounterOffer_low_iff hbps hb, hstored]
  cases hhighest : s.highestOffers.lookup id with
  | none => simp
  | some highest =>
    have hpos := hs.positive id highest hhighest
    simp only [Option.some.injEq, exists_eq_left', forall_eq', minCounterOfferAmount_eq_ok hpos]
    constructor
    · intro hrule hunder
      obtain ⟨minRequired, ⟨hfits, rfl⟩, hlow⟩ := hrule.mpr hunder
      exact ⟨hfits, by omega⟩
    · intro hround
      constructor
      · intro h
        obtain ⟨minRequired, ⟨_, rfl⟩, hlow⟩ := h
        omega
      · intro hunder
        obtain ⟨hfits, hne⟩ := hround hunder
        exact ⟨_, ⟨hfits, rfl⟩, by omega⟩

end Counters

/-- An offer is rejected as a counter-offer that is too low exactly when a stored offer asks for more. -/
def CounterRule (house : Address) (env : Env) (buyer : Address) (id : ℕ) (amount : ℤ)
    (expirationLedger b : ℕ) (s : State) : Prop :=
  makeOffer house env buyer id amount expirationLedger s = .error (.error .counterOfferTooLow) ↔
    ∃ other offer, s.offers.lookup (id, other) = some offer ∧
      amount * 10000 < offer.amount * (10000 + b)

/-- In every state of a run that keeps the recorded highest offers among the stored ones, an offer
    that passes the other checks meets the rule unless the required amount overflows or is rounded
    down to the offer. -/
theorem counter_offer_rule (house admin paymentToken : Address) (royaltyBps : ℕ)
    (royaltyRecipient : Address) (i₀ : Invocation house) (s : State)
    (hcall : i₀.call = .initializeMarketplace admin paymentToken royaltyBps royaltyRecipient)
    (hinit : exec i₀ State.empty = .ok s) (is : List (Invocation house))
    (hkeeps : ∀ e ∈ history exec s is, KeepsTop e.before e.invocation.call)
    (env : Env) (buyer : Address) (id b : ℕ) (amount : ℤ) (expirationLedger : ℕ) (listing : Listing)
    (hbps : (run s is).minCounterOfferBps = some b) (hb : 0 < b) (hauth : buyer ∈ env.auths)
    (hlisting : (run s is).listings.lookup id = some listing) (hactive : listing.active = true)
    (hamount : 0 < amount) (hprice : amount < listing.price)
    (hexpiry : env.sequence < expirationLedger) :
    CounterRule house env buyer id amount expirationLedger b (run s is) ↔
      ∀ highest, (run s is).highestOffers.lookup id = some highest →
        amount * 10000 < highest * (10000 + b) →
          InI128 (highest * (10000 + b)) ∧ amount ≠ highest * (10000 + b) / 10000 := by
  have hpriced := run_priced hcall hinit is
  have hstart : Priced s ∧ TopKept s := by
    unfold exec at hinit
    rw [hcall] at hinit
    refine ⟨initializeMarketplace_priced hinit, ?_⟩
    simp only [initializeMarketplace, bind_eq_ok, pure_eq_ok] at hinit
    obtain ⟨_, _, _, _, _, _, _, _, rfl⟩ := hinit
    exact topKept_of_empty rfl rfl rfl
  have hrun : Priced (run s is) ∧ TopKept (run s is) := by
    apply run_invariant_along (I := fun s => Priced s ∧ TopKept s) ?_ hstart
      (along_of_history (Q := fun s i => KeepsTop s i.call) hkeeps)
    intro s i t hs hkeeps hok
    exact ⟨exec_priced hs.1 hok, exec_topKept hs.1.admin_some hs.2 (hkeeps t hok) hok⟩
  unfold CounterRule
  rw [makeOffer_low_iff hpriced.admin_some hauth hlisting hactive hamount hprice hexpiry]
  exact hrun.2.low_iff ⟨listing, hlisting, hactive⟩ hbps hb

/-- A counter-offer has to be five percent higher. -/
def demoBids (calls : List Call) : List (Invocation demoHouse) :=
  demoCall 2 (.setMinCounterOfferBps demoAdmin 500) :: demoList 7 :: calls.map (demoCall 3)

/-- Alice offers 40 and raises it to 42, and Bob's 43 is too low. -/
theorem counter_offer_rule_demo :
    makeOffer demoHouse (demoCall 4 (.makeOffer demoBob 0 43 20)).toEnv demoBob 0 43 20
        (run (run State.empty [demoInitialize])
          (demoBids [.makeOffer demoAlice 0 40 20, .makeOffer demoAlice 0 42 20])) =
      .error (.error .counterOfferTooLow) := by
  have hrule := counter_offer_rule demoHouse demoAdmin demoToken 500 demoAdmin demoInitialize
    (run State.empty [demoInitialize]) rfl rfl
    (demoBids [.makeOffer demoAlice 0 40 20, .makeOffer demoAlice 0 42 20])
    (by decide +kernel) (demoCall 4 (.makeOffer demoBob 0 43 20)).toEnv demoBob 0 500 43 20
    ⟨demoNft, 7, demoSeller, 100, demoToken, true, none, .fixed⟩ (by decide +kernel) (by decide)
    (by decide) (by decide +kernel) rfl (by decide) (by decide) (by decide)
  have hhighest : (run (run State.empty [demoInitialize])
      (demoBids [.makeOffer demoAlice 0 40 20, .makeOffer demoAlice 0 42 20])).highestOffers.lookup 0 =
        some 42 := by decide +kernel
  have hround := hrule.mpr fun highest hstored _ => by
    rw [hhighest] at hstored
    cases hstored
    decide
  exact hround.mpr ⟨demoAlice, ⟨42, 20⟩, by decide +kernel, by decide⟩

/-- Alice has taken her 70 back, and Bob's 50 is too low. Her 70 came in a batch, and Bob's 50 is not
    too low. Her offer is 1, and so is Bob's. -/
theorem counter_offers_misjudged :
    let rule := fun (amount : ℤ) (calls : List Call) =>
      CounterRule demoHouse (demoCall 4 (.makeOffer demoBob 0 amount 20)).toEnv demoBob 0 amount 20 500
        (run (run State.empty [demoInitialize]) (demoBids calls))
    ¬ rule 50 [.makeOffer demoAlice 0 70 20, .cancelOffer demoAlice 0] ∧
      ¬ rule 50 [.makeOffersBatch demoAlice [7] [70] 20] ∧
      ¬ rule 1 [.makeOffer demoAlice 0 1 20] := by
  refine ⟨fun hrule => ?_, fun hrule => ?_, fun hrule => ?_⟩
  · obtain ⟨other, offer, hoffer, _⟩ := hrule.mp rfl
    have hnone : (run (run State.empty [demoInitialize])
        (demoBids [.makeOffer demoAlice 0 70 20, .cancelOffer demoAlice 0])).offers = ∅ := by
      decide +kernel
    rw [hnone] at hoffer
    cases hoffer
  · have hlow := hrule.mpr ⟨demoAlice, ⟨70, 20⟩, by decide +kernel, by decide⟩
    cases hlow
  · have hlow := hrule.mpr ⟨demoAlice, ⟨1, 20⟩, by decide +kernel, by decide⟩
    cases hlow

end SorobanKit.Marketplace
