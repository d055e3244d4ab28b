import SorobanKit.CommonMath
import SorobanKit.HostInvocation
import SorobanKit.HostRuns
import SorobanKit.HostTransfers
import Mathlib.Data.Finmap

set_option autoImplicit false

/-!
# The marketplace

Listings, escrowed offers on listings and on whole collections, bundles, and the payment of a
sale. `transfers` is the log of the token transfers that returned. Events, TTL bumps and queries
are left out, and so are `buy`, `buy_batch` and `accept_offer`, whose source is two versions in
one text.
-/
namespace SorobanKit.Marketplace
open CommonMath HostInteger HostInvocation HostTransfers

inductive MarketplaceError where
  | alreadyInitialized
  | notInitialized
  | notAuthorized
  | invalidPrice
  | listingNotFound
  | listingInactive
  | invalidRoyalty
  | invalidExpiry
  | listingNotExpired
  | invalidOfferAmount
  | offerNotFound
  | offerNotExpired
  | counterOfferTooLow
  | paymentTokenNotAllowed
  | sellerNotOwner
  | batchTooLarge
  | emptyBatch
  | listingStillActive
  | reentrant
  | collectionOfferNotFound
  | collectionOfferExpired
  | duplicateTokenId
  | bundleNotFound
  deriving DecidableEq, Repr

inductive ListingType where
  | fixed
  | dutch (startPrice endPrice : ℤ) (startLedger endLedger : ℕ)
  deriving DecidableEq, Repr

structure Listing where
  nftContract : Address
  tokenId : ℕ
  seller : Address
  price : ℤ
  paymentToken : Address
  active : Bool
  expiresAt : Option ℕ
  listingType : ListingType
  deriving DecidableEq, Repr

structure ListingParams where
  nftContract : Address
  tokenId : ℕ
  price : ℤ
  paymentToken : Address
  expiresAt : Option ℕ
  deriving DecidableEq, Repr

structure Offer where
  amount : ℤ
  expirationLedger : ℕ
  deriving DecidableEq, Repr

structure CollectionOffer where
  buyer : Address
  nftContract : Address
  amount : ℤ
  expiresAt : ℕ
  deriving DecidableEq, Repr

structure BundleListing where
  seller : Address
  nftContract : Address
  tokenIds : List ℕ
  totalPrice : ℤ
  paymentToken : Address
  active : Bool
  deriving DecidableEq, Repr

/-- Why the contract moves tokens. One payment for several offers says what it pays for each
    listing. -/
inductive Purpose where
  | offers (shares : List (ℕ × ℤ))
  | offerRefund (listingId : ℕ)
  | collectionOffer (offerId : ℕ)
  | collectionRefund (offerId : ℕ)
  | sale
  | royalty
  deriving DecidableEq, Repr

structure State where
  admin : Option Address := none
  paymentToken : Option Address := none
  royaltyBps : Option ℕ := none
  royaltyRecipient : Option Address := none
  nextListingId : Option ℕ := none
  whitelistEnabled : Option Bool := none
  locked : Bool := false
  royaltySplits : Option (List (Address × ℕ)) := none
  nextCollectionOfferId : Option ℕ := none
  nextBundleId : Option ℕ := none
  stakingContract : Option Address := none
  minCounterOfferBps : Option ℕ := none
  allowedTokens : Finset Address := ∅
  listings : Finmap (fun _ : ℕ => Listing) := ∅
  offers : Finmap (fun _ : ℕ × Address => Offer) := ∅
  highestOffers : Finmap (fun _ : ℕ => ℤ) := ∅
  collectionOffers : Finmap (fun _ : ℕ => CollectionOffer) := ∅
  bundles : Finmap (fun _ : ℕ => BundleListing) := ∅
  transfers : List (Transfer Purpose) := []

def State.empty : State := {}

structure RoyaltyInfo where
  recipient : Address
  amount : I128

structure NftTransfer where
  spender : Address
  source : Address
  target : Address
  tokenId : ℕ
  deriving DecidableEq, Repr

/-- One invocation sees the ledger, its authorizations and what token, NFT and staking contracts
    answer. `none` is a call that fails. -/
structure Env extends Context where
  tokens : TokenReplies Purpose
  ownerOf : Address → ℕ → Option Address
  royaltyInfo : Address → ℕ → ℤ → Option (Option RoyaltyInfo)
  nftAccepts : Address → NftTransfer → Bool
  stakedBalance : Address → Address → Option ℤ

def maxBatchSize : ℕ := 20
def maxRoyaltyRecipients : ℕ := 10
def stakingTier1Threshold : ℤ := 10000000000
def stakingTier2Threshold : ℤ := 100000000000
def stakingTier3Threshold : ℤ := 1000000000000
def stakingTier1DiscountBps : ℕ := 2000
def stakingTier2DiscountBps : ℕ := 3500
def stakingTier3DiscountBps : ℕ := 5000

def State.requireInitialized (s : State) : Result MarketplaceError Unit :=
  rejectIf s.admin.isNone .notInitialized

def checkBatchLen (len : ℕ) : Result MarketplaceError Unit := do
  rejectIf (len = 0) .emptyBatch
  rejectIf (maxBatchSize < len) .batchTooLarge

def acquireLock (s : State) : Result MarketplaceError State := do
  rejectIf s.locked .reentrant
  return { s with locked := true }

def releaseLock (s : State) : State := { s with locked := false }

section Entrypoints
variable (house : Address) (env : Env)

def callTransfer (x : Transfer Purpose) (s : State) : Result MarketplaceError State :=
  recordTransfer env.tokens s.transfers x fun log => { s with transfers := log }

def initializeMarketplace (admin paymentToken : Address) (royaltyBps : ℕ) (royaltyRecipient : Address)
    (s : State) : Result MarketplaceError State := do
  rejectIf s.admin.isSome .alreadyInitialized
  rejectIf (10000 < royaltyBps) .invalidRoyalty
  requireAuth env.toContext admin
  trapUnless (env.tokens.responds paymentToken)
  return { s with
    admin := some admin, paymentToken := some paymentToken, royaltyBps := some royaltyBps,
    royaltyRecipient := some royaltyRecipient, nextListingId := some 0,
    whitelistEnabled := some false, allowedTokens := insert paymentToken s.allowedTokens }

def setPaymentTokenAllowed (token : Address) (allowed : Bool) (s : State) :
    Result MarketplaceError State := do
  let admin ← okOr s.admin .notInitialized
  requireAuth env.toContext admin
  trapUnless (allowed → env.tokens.responds token)
  return { s with
    allowedTokens := if allowed then insert token s.allowedTokens else s.allowedTokens.erase token }

def setWhitelistEnabled (enabled : Bool) (s : State) : Result MarketplaceError State := do
  let admin ← okOr s.admin .notInitialized
  requireAuth env.toContext admin
  return { s with whitelistEnabled := some enabled }

def setStakingContract (admin : Address) (stakingContract : Option Address) (s : State) :
    Result MarketplaceError State := do
  let storedAdmin ← okOr s.admin .notInitialized
  rejectIf (admin ≠ storedAdmin) .notAuthorized
  requireAuth env.toContext admin
  return { s with stakingContract := stakingContract }

def setMinCounterOfferBps (admin : Address) (bps : ℕ) (s : State) :
    Result MarketplaceError State := do
  let storedAdmin ← okOr s.admin .notInitialized
  rejectIf (admin ≠ storedAdmin) .notAuthorized
  rejectIf (10000 < bps) .invalidRoyalty
  requireAuth env.toContext admin
  return { s with minCounterOfferBps := some bps }

/-- One round of the loop of `set_royalty_splits`. -/
def addSplit (totalBps : ℕ) (split : Address × ℕ) : Result MarketplaceError ℕ := do
  rejectIf (split.2 = 0) .invalidRoyalty
  okOr (checkedAddU32 totalBps split.2) .invalidRoyalty

def setRoyaltySplits (admin : Address) (splits : List (Address × ℕ)) (s : State) :
    Result MarketplaceError State := do
  let storedAdmin ← okOr s.admin .notInitialized
  rejectIf (admin ≠ storedAdmin) .notAuthorized
  requireAuth env.toContext admin
  rejectIf (maxRoyaltyRecipients < splits.length) .invalidRoyalty
  let totalBps ← splits.foldlM addSplit 0
  rejectIf (10000 < totalBps) .invalidRoyalty
  return { s with royaltySplits := if splits.isEmpty then none else some splits }

def State.tokenRefused (s : State) (token : Address) : Prop :=
  s.whitelistEnabled.getD false ∧ token ∉ s.allowedTokens

instance (s : State) (token : Address) : Decidable (s.tokenRefused token) :=
  inferInstanceAs (Decidable (_ ∧ _))

/-- A listing gets the next number. -/
def addListing (listing : Listing) (s : State) : Result MarketplaceError State := do
  let id := s.nextListingId.getD 0
  let nextId ← unwrap (checkedAddU64 id 1)
  return { s with listings := s.listings.insert id listing, nextListingId := some nextId }

def listImpl (seller : Address) (s : State) (params : ListingParams) :
    Result MarketplaceError State := do
  s.requireInitialized
  rejectIf (params.price ≤ 0) .invalidPrice
  rejectIf (∃ expiresAt ∈ params.expiresAt, expiresAt ≤ env.sequence) .invalidExpiry
  rejectIf (s.tokenRefused params.paymentToken) .paymentTokenNotAllowed
  addListing
    { nftContract := params.nftContract, tokenId := params.tokenId, seller := seller,
      price := params.price, paymentToken := params.paymentToken, active := true,
      expiresAt := params.expiresAt, listingType := .fixed } s

def list (seller nftContract : Address) (tokenId : ℕ) (price : ℤ) (paymentToken : Address)
    (s : State) : Result MarketplaceError State := do
  requireAuth env.toContext seller
  listImpl env seller s ⟨nftContract, tokenId, price, paymentToken, none⟩

def listWithExpiry (seller nftContract : Address) (tokenId : ℕ) (price : ℤ)
    (paymentToken : Address) (expiresAt : ℕ) (s : State) : Result MarketplaceError State := do
  requireAuth env.toContext seller
  listImpl env seller s ⟨nftContract, tokenId, price, paymentToken, some expiresAt⟩

def listBatch (seller : Address) (items : List ListingParams) (s : State) :
    Result MarketplaceError State := do
  checkBatchLen items.length
  requireAuth env.toContext seller
  items.foldlM (listImpl env seller) s

def listDutch (seller nftContract : Address) (tokenId : ℕ) (startPrice endPrice : ℤ)
    (startLedger endLedger : ℕ) (paymentToken : Address) (s : State) :
    Result MarketplaceError State := do
  requireAuth env.toContext seller
  s.requireInitialized
  rejectIf (endPrice ≤ 0 ∨ startPrice < endPrice) .invalidPrice
  rejectIf (endLedger ≤ startLedger ∨ startLedger < env.sequence) .invalidExpiry
  rejectIf (s.tokenRefused paymentToken) .paymentTokenNotAllowed
  addListing
    { nftContract := nftContract, tokenId := tokenId, seller := seller, price := startPrice,
      paymentToken := paymentToken, active := true, expiresAt := none,
      listingType := .dutch startPrice endPrice startLedger endLedger } s

def sellerOwns (listing : Listing) : Prop :=
  env.ownerOf listing.nftContract listing.tokenId = some listing.seller

instance (listing : Listing) : Decidable (sellerOwns env listing) :=
  inferInstanceAs (Decidable (_ = _))

def getListing (listingId : ℕ) (s : State) : Result MarketplaceError Listing :=
  okOr (s.listings.lookup listingId) .listingNotFound

def closeListing (listingId : ℕ) (listing : Listing) (s : State) : State :=
  { s with listings := s.listings.insert listingId { listing with active := false } }

def cancelImpl (seller : Address) (s : State) (listingId : ℕ) : Result MarketplaceError State := do
  let listing ← getListing listingId s
  rejectIf (¬ listing.active) .listingInactive
  rejectIf (listing.seller ≠ seller) .notAuthorized
  return closeListing listingId listing s

def cancel (seller : Address) (listingId : ℕ) (s : State) : Result MarketplaceError State := do
  s.requireInitialized
  requireAuth env.toContext seller
  cancelImpl seller s listingId

def cancelBatch (seller : Address) (listingIds : List ℕ) (s : State) :
    Result MarketplaceError State := do
  checkBatchLen listingIds.length
  s.requireInitialized
  requireAuth env.toContext seller
  listingIds.foldlM (cancelImpl seller) s

def sweepExpired (seller : Address) (listingId : ℕ) (s : State) : Result MarketplaceError State := do
  s.requireInitialized
  requireAuth env.toContext seller
  let listing ← getListing listingId s
  rejectIf (¬ listing.active) .listingInactive
  rejectIf (listing.seller ≠ seller) .notAuthorized
  let expiresAt ← okOr listing.expiresAt .listingNotExpired
  rejectIf (env.sequence ≤ expiresAt) .listingNotExpired
  return closeListing listingId listing s

def invalidateListing (listingId : ℕ) (s : State) : Result MarketplaceError State := do
  s.requireInitialized
  let listing ← getListing listingId s
  rejectIf (¬ listing.active) .listingInactive
  if sellerOwns env listing then return s
  else return closeListing listingId listing s

def minCounterOfferAmount (highest : ℤ) (minBps : ℕ) : Result MarketplaceError ℤ := do
  let numerator ← okOr (checkedMul highest (10000 + minBps)) .invalidOfferAmount
  okOr (checked (numerator.tdiv 10000)) .invalidOfferAmount

/-- The highest offer ever made counts, whether or not it still stands. -/
def requireCounterOffer (listingId : ℕ) (amount : ℤ) (s : State) : Result MarketplaceError Unit :=
  let minBps := s.minCounterOfferBps.getD 0
  match s.highestOffers.lookup listingId with
  | some highest =>
    if 0 < minBps then do
      let minRequired ← minCounterOfferAmount highest minBps
      rejectIf (amount < minRequired) .counterOfferTooLow
    else return ()
  | none => return ()

/-- The one payment that takes the escrow of an offer from `prior` to `amount`. -/
def payDelta (listingId : ℕ) (token buyer : Address) (prior amount : ℤ) (s : State) :
    Result MarketplaceError State :=
  if prior < amount then
    callTransfer env ⟨.offers [(listingId, amount - prior)], token, buyer, house, amount - prior⟩ s
  else if amount < prior then
    callTransfer env ⟨.offerRefund listingId, token, house, buyer, prior - amount⟩ s
  else return s

def raiseHighest (listingId : ℕ) (amount : ℤ) (s : State) : State :=
  if (s.highestOffers.lookup listingId).getD 0 < amount then
    { s with highestOffers := s.highestOffers.insert listingId amount }
  else s

def makeOffer (buyer : Address) (listingId : ℕ) (amount : ℤ) (expirationLedger : ℕ) (s : State) :
    Result MarketplaceError State := do
  s.requireInitialized
  requireAuth env.toContext buyer
  let listing ← getListing listingId s
  rejectIf (¬ listing.active) .listingInactive
  rejectIf (amount ≤ 0 ∨ listing.price ≤ amount) .invalidOfferAmount
  rejectIf (expirationLedger ≤ env.sequence) .invalidExpiry
  requireCounterOffer listingId amount s
  let prior := ((s.offers.lookup (listingId, buyer)).map Offer.amount).getD 0
  let s ← payDelta house env listingId listing.paymentToken buyer prior amount s
  let s := { s with offers := s.offers.insert (listingId, buyer) ⟨amount, expirationLedger⟩ }
  return raiseHighest listingId amount s

/-- The last active listing of a token with this number, of any collection. -/
def findListingByToken (tokenId : ℕ) (s : State) : Option (ℕ × Listing) :=
  (List.range (s.nextListingId.getD 0)).foldl
    (fun found id =>
      match s.listings.lookup id with
      | some listing => if listing.tokenId = tokenId ∧ listing.active then some (id, listing) else found
      | none => found)
    none

/-- One round of the first loop of `make_offers_batch`. -/
def checkOffer (defaultToken : Address) (s : State) (total : ℤ) (item : ℕ × ℤ) :
    Result MarketplaceError ℤ := do
  let (_, listing) ← okOr (findListingByToken item.1 s) .listingNotFound
  rejectIf (¬ listing.active) .listingInactive
  rejectIf (item.2 ≤ 0 ∨ listing.price ≤ item.2) .invalidOfferAmount
  rejectIf (listing.paymentToken ≠ defaultToken) .paymentTokenNotAllowed
  okOr (checkedAdd total item.2) .invalidOfferAmount

/-- One round of the second loop: the offer replaces any offer of the buyer. -/
def storeOffer (buyer : Address) (expiration : ℕ) (s : State) (item : ℕ × ℤ) :
    Result MarketplaceError State := do
  let (listingId, _) ← okOr (findListingByToken item.1 s) .listingNotFound
  return { s with offers := s.offers.insert (listingId, buyer) ⟨item.2, expiration⟩ }

/-- What the batch pays for each listing. -/
def offerShares (s : State) (items : List (ℕ × ℤ)) : List (ℕ × ℤ) :=
  items.filterMap fun item => (findListingByToken item.1 s).map fun found => (found.1, item.2)

def makeOffersBatch (buyer : Address) (tokenIds : List ℕ) (prices : List ℤ) (expiration : ℕ)
    (s : State) : Result MarketplaceError State := do
  s.requireInitialized
  checkBatchLen tokenIds.length
  rejectIf (tokenIds.length ≠ prices.length) .invalidOfferAmount
  rejectIf (expiration ≤ env.sequence) .invalidExpiry
  requireAuth env.toContext buyer
  let defaultToken ← okOr s.paymentToken .notInitialized
  let items := tokenIds.zip prices
  let total ← items.foldlM (checkOffer defaultToken s) 0
  let s ← callTransfer env ⟨.offers (offerShares s items), defaultToken, buyer, house, total⟩ s
  items.foldlM (storeOffer buyer expiration) s

/-- The offer goes before its amount is paid back. -/
def refundOffer (listingId : ℕ) (token buyer : Address) (offer : Offer) (s : State) :
    Result MarketplaceError State :=
  callTransfer env ⟨.offerRefund listingId, token, house, buyer, offer.amount⟩
    { s with offers := s.offers.erase (listingId, buyer) }

def cancelOffer (buyer : Address) (listingId : ℕ) (s : State) : Result MarketplaceError State := do
  s.requireInitialized
  requireAuth env.toContext buyer
  let listing ← getListing listingId s
  let offer ← okOr (s.offers.lookup (listingId, buyer)) .offerNotFound
  refundOffer house env listingId listing.paymentToken buyer offer s

def expireOffer (listingId : ℕ) (buyer : Address) (s : State) : Result MarketplaceError State := do
  s.requireInitialized
  let listing ← getListing listingId s
  let offer ← okOr (s.offers.lookup (listingId, buyer)) .offerNotFound
  rejectIf (env.sequence ≤ offer.expirationLedger) .offerNotExpired
  refundOffer house env listingId listing.paymentToken buyer offer s

/-- One round of the loop of `sweep_offers`. -/
def sweepOne (listingId : ℕ) (token : Address) (s : State) (buyer : Address) :
    Result MarketplaceError State :=
  match s.offers.lookup (listingId, buyer) with
  | some offer => refundOffer house env listingId token buyer offer s
  | none => return s

def sweepOffers (listingId : ℕ) (buyers : List Address) (s : State) :
    Result MarketplaceError State := do
  s.requireInitialized
  checkBatchLen buyers.length
  let listing ← getListing listingId s
  rejectIf listing.active .listingStillActive
  let s ← acquireLock s
  let s ← buyers.foldlM (sweepOne house env listingId listing.paymentToken) s
  return releaseLock s

/-- A staking contract that fails gives no discount. -/
def feeDiscountBps (user : Address) (s : State) : ℕ :=
  match s.stakingContract with
  | none => 0
  | some staking =>
    match env.stakedBalance staking user with
    | none => 0
    | some balance =>
      if stakingTier3Threshold ≤ balance then stakingTier3DiscountBps
      else if stakingTier2Threshold ≤ balance then stakingTier2DiscountBps
      else if stakingTier1Threshold ≤ balance then stakingTier1DiscountBps
      else 0

/-- The marketplace's own royalties. -/
def State.royalties (s : State) : List (Address × ℕ) :=
  match s.royaltySplits with
  | some splits => if splits.isEmpty then single else splits
  | none => single
where
  single : List (Address × ℕ) :=
    match s.royaltyRecipient with
    | some recipient => [(recipient, s.royaltyBps.getD 0)]
    | none => []

def effectiveBps (discountBps bps : ℕ) : ℕ :=
  if 0 < discountBps then saturatingSubU32 bps (saturatingMulU32 bps discountBps / 10000) else bps

/-- A share that overflows is none. -/
def royaltyShare (salePrice : ℤ) (discountBps bps : ℕ) : ℤ :=
  (mulDiv salePrice (effectiveBps discountBps bps) 10000).toOption.getD 0

/-- What the NFT contract answers is taken as it is. -/
def resolveRoyalty (nftContract : Address) (tokenId : ℕ) (salePrice : ℤ) (discountBps : ℕ)
    (s : State) : Result MarketplaceError (List (Address × ℤ)) := do
  let nftRoyalty ← unwrap (env.royaltyInfo nftContract tokenId salePrice)
  match nftRoyalty with
  | some royalty => return [(royalty.recipient, royalty.amount.1)]
  | none => return s.royalties.map fun split => (split.1, royaltyShare salePrice discountBps split.2)

/-- One round of the loop over the royalties: what is not positive is not paid. -/
def payRoyalty (token payer : Address) (s : State) (royalty : Address × ℤ) :
    Result MarketplaceError State :=
  if 0 < royalty.2 then callTransfer env ⟨.royalty, token, payer, royalty.1, royalty.2⟩ s
  else return s

/-- The seller gets what the royalties leave of the price. -/
def payShares (token payer seller : Address) (price : ℤ) (royalties : List (Address × ℤ))
    (s : State) : Result MarketplaceError State := do
  let royaltyTotal := royalties.foldl (fun total royalty => saturatingAdd total royalty.2) 0
  let sellerAmount ← unwrap (checkedSub price royaltyTotal)
  let s ← callTransfer env ⟨.sale, token, payer, seller, sellerAmount⟩ s
  royalties.foldlM (payRoyalty env token payer) s

def transferNft (nftContract source target : Address) (tokenId : ℕ) : Result MarketplaceError Unit :=
  trapUnless (env.nftAccepts nftContract ⟨house, source, target, tokenId⟩)

def settleSale (paymentToken payer seller nftRecipient nftContract : Address) (tokenId : ℕ)
    (price : ℤ) (s : State) : Result MarketplaceError State := do
  let discountBps := feeDiscountBps env seller s
  let royalties ← resolveRoyalty env nftContract tokenId price discountBps s
  let s ← payShares env paymentToken payer seller price royalties s
  transferNft house env nftContract seller nftRecipient tokenId
  return s

def makeCollectionOffer (buyer nftContract : Address) (amount : ℤ) (expiresAt : ℕ) (s : State) :
    Result MarketplaceError State := do
  let paymentToken ← okOr s.paymentToken .notInitialized
  rejectIf (amount ≤ 0) .invalidOfferAmount
  rejectIf (expiresAt ≤ env.sequence) .invalidExpiry
  requireAuth env.toContext buyer
  let id := s.nextCollectionOfferId.getD 0
  let s ← callTransfer env ⟨.collectionOffer id, paymentToken, buyer, house, amount⟩ s
  return { s with
    collectionOffers := s.collectionOffers.insert id ⟨buyer, nftContract, amount, expiresAt⟩,
    nextCollectionOfferId := some (saturatingAddU64 id 1) }

def acceptCollectionOffer (seller : Address) (offerId tokenId : ℕ) (s : State) :
    Result MarketplaceError State := do
  let paymentToken ← okOr s.paymentToken .notInitialized
  requireAuth env.toContext seller
  let offer ← okOr (s.collectionOffers.lookup offerId) .collectionOfferNotFound
  rejectIf (offer.expiresAt < env.sequence) .collectionOfferExpired
  rejectIf (offer.buyer = seller) .notAuthorized
  let s := { s with collectionOffers := s.collectionOffers.erase offerId }
  settleSale house env paymentToken house seller offer.buyer offer.nftContract tokenId offer.amount s

def cancelCollectionOffer (buyer : Address) (offerId : ℕ) (s : State) :
    Result MarketplaceError State := do
  let paymentToken ← okOr s.paymentToken .notInitialized
  requireAuth env.toContext buyer
  let offer ← okOr (s.collectionOffers.lookup offerId) .collectionOfferNotFound
  rejectIf (offer.buyer ≠ buyer) .notAuthorized
  callTransfer env ⟨.collectionRefund offerId, paymentToken, house, buyer, offer.amount⟩
    { s with collectionOffers := s.collectionOffers.erase offerId }

/-- The seller holds every token of the bundle. -/
def ownsAll (seller nftContract : Address) (tokenIds : List ℕ) : Prop :=
  ∀ tokenId ∈ tokenIds, env.ownerOf nftContract tokenId = some seller

instance (seller nftContract : Address) (tokenIds : List ℕ) :
    Decidable (ownsAll env seller nftContract tokenIds) :=
  inferInstanceAs (Decidable (∀ tokenId ∈ tokenIds, _))

def createBundleListing (seller nftContract : Address) (tokenIds : List ℕ) (totalPrice : ℤ)
    (paymentToken : Address) (s : State) : Result MarketplaceError State := do
  requireAuth env.toContext seller
  s.requireInitialized
  rejectIf tokenIds.isEmpty .emptyBatch
  rejectIf (totalPrice ≤ 0) .invalidPrice
  rejectIf (s.tokenRefused paymentToken) .paymentTokenNotAllowed
  rejectIf (¬ tokenIds.Nodup) .duplicateTokenId
  rejectIf (¬ ownsAll env seller nftContract tokenIds) .sellerNotOwner
  let id := s.nextBundleId.getD 0
  let nextId ← unwrap (checkedAddU64 id 1)
  return { s with
    bundles := s.bundles.insert id ⟨seller, nftContract, tokenIds, totalPrice, paymentToken, true⟩,
    nextBundleId := some nextId }

def buyBundle (buyer : Address) (bundleId : ℕ) (s : State) : Result MarketplaceError State := do
  s.requireInitialized
  requireAuth env.toContext buyer
  let bundle ← okOr (s.bundles.lookup bundleId) .bundleNotFound
  rejectIf (¬ bundle.active) .listingInactive
  rejectIf (¬ ownsAll env bundle.seller bundle.nftContract bundle.tokenIds) .sellerNotOwner
  let s ← acquireLock s
  let s := { s with bundles := s.bundles.insert bundleId { bundle with active := false } }
  let royalties ←
    resolveRoyalty env bundle.nftContract (bundle.tokenIds.headD 0) bundle.totalPrice 0 s
  let s ← payShares env bundle.paymentToken buyer bundle.seller bundle.totalPrice royalties s
  bundle.tokenIds.forM fun tokenId =>
    transferNft house env bundle.nftContract bundle.seller buyer tokenId
  return releaseLock s

def delistBundle (seller : Address) (bundleId : ℕ) (s : State) : Result MarketplaceError State := do
  s.requireInitialized
  requireAuth env.toContext seller
  let bundle ← okOr (s.bundles.lookup bundleId) .bundleNotFound
  rejectIf (¬ bundle.active) .listingInactive
  rejectIf (bundle.seller ≠ seller) .notAuthorized
  return { s with bundles := s.bundles.insert bundleId { bundle with active := false } }

end Entrypoints

inductive Call where
  | initializeMarketplace (admin paymentToken : Address) (royaltyBps : ℕ) (royaltyRecipient : Address)
  | setPaymentTokenAllowed (token : Address) (allowed : Bool)
  | setWhitelistEnabled (enabled : Bool)
  | setStakingContract (admin : Address) (stakingContract : Option Address)
  | setMinCounterOfferBps (admin : Address) (bps : ℕ)
  | setRoyaltySplits (admin : Address) (splits : List (Address × ℕ))
  | list (seller nftContract : Address) (tokenId : ℕ) (price : ℤ) (paymentToken : Address)
  | listWithExpiry (seller nftContract : Address) (tokenId : ℕ) (price : ℤ) (paymentToken : Address)
      (expiresAt : ℕ)
  | listBatch (seller : Address) (items : List ListingParams)
  | listDutch (seller nftContract : Address) (tokenId : ℕ) (startPrice endPrice : ℤ)
      (startLedger endLedger : ℕ) (paymentToken : Address)
  | cancel (seller : Address) (listingId : ℕ)
  | cancelBatch (seller : Address) (listingIds : List ℕ)
  | sweepExpired (seller : Address) (listingId : ℕ)
  | invalidateListing (listingId : ℕ)
  | makeOffer (buyer : Address) (listingId : ℕ) (amount : ℤ) (expirationLedger : ℕ)
  | makeOffersBatch (buyer : Address) (tokenIds : List ℕ) (prices : List ℤ) (expiration : ℕ)
  | cancelOffer (buyer : Address) (listingId : ℕ)
  | expireOffer (listingId : ℕ) (buyer : Address)
  | sweepOffers (listingId : ℕ) (buyers : List Address)
  | makeCollectionOffer (buyer nftContract : Address) (amount : ℤ) (expiresAt : ℕ)
  | acceptCollectionOffer (seller : Address) (offerId tokenId : ℕ)
  | cancelCollectionOffer (buyer : Address) (offerId : ℕ)
  | createBundleListing (seller nftContract : Address) (tokenIds : List ℕ) (totalPrice : ℤ)
      (paymentToken : Address)
  | buyBundle (buyer : Address) (bundleId : ℕ)
  | delistBundle (seller : Address) (bundleId : ℕ)

/-- A call on the contract at `house`, which signs nothing itself. -/
structure Invocation (house : Address) extends Env where
  call : Call
  outside : house ∉ auths

def exec {house : Address} (i : Invocation house) (s : State) : Result MarketplaceError State :=
  let env := i.toEnv
  match i.call with
  | .initializeMarketplace admin paymentToken royaltyBps royaltyRecipient =>
    initializeMarketplace env admin paymentToken royaltyBps royaltyRecipient s
  | .setPaymentTokenAllowed token allowed => setPaymentTokenAllowed env token allowed s
  | .setWhitelistEnabled enabled => setWhitelistEnabled env enabled s
  | .setStakingContract admin stakingContract => setStakingContract env admin stakingContract s
  | .setMinCounterOfferBps admin bps => setMinCounterOfferBps env admin bps s
  | .setRoyaltySplits admin splits => setRoyaltySplits env admin splits s
  | .list seller nftContract tokenId price paymentToken =>
    list env seller nftContract tokenId price paymentToken s
  | .listWithExpiry seller nftContract tokenId price paymentToken expiresAt =>
    listWithExpiry env seller nftContract tokenId price paymentToken expiresAt s
  | .listBatch seller items => listBatch env seller items s
  | .listDutch seller nftContract tokenId startPrice endPrice startLedger endLedger paymentToken =>
    listDutch env seller nftContract tokenId startPrice endPrice startLedger endLedger paymentToken s
  | .cancel seller listingId => cancel env seller listingId s
  | .cancelBatch seller listingIds => cancelBatch env seller listingIds s
  | .sweepExpired seller listingId => sweepExpired env seller listingId s
  | .invalidateListing listingId => invalidateListing env listingId s
  | .makeOffer buyer listingId amount expirationLedger =>
    makeOffer house env buyer listingId amount expirationLedger s
  | .makeOffersBatch buyer tokenIds prices expiration =>
    makeOffersBatch house env buyer tokenIds prices expiration s
  | .cancelOffer buyer listingId => cancelOffer house env buyer listingId s
  | .expireOffer listingId buyer => expireOffer house env listingId buyer s
  | .sweepOffers listingId buyers => sweepOffers house env listingId buyers s
  | .makeCollectionOffer buyer nftContract amount expiresAt =>
    makeCollectionOffer house env buyer nftContract amount expiresAt s
  | .acceptCollectionOffer seller offerId tokenId =>
    acceptCollectionOffer house env seller offerId tokenId s
  | .cancelCollectionOffer buyer offerId => cancelCollectionOffer house env buyer offerId s
  | .createBundleListing seller nftContract tokenIds totalPrice paymentToken =>
    createBundleListing env seller nftContract tokenIds totalPrice paymentToken s
  | .buyBundle buyer bundleId => buyBundle house env buyer bundleId s
  | .delistBundle seller bundleId => delistBundle env seller bundleId s

def run {house : Address} (s : State) (is : List (Invocation house)) : State := HostRuns.run exec s is

def demoHouse : Address := ⟨80⟩
def demoAdmin : Address := ⟨81⟩
def demoToken : Address := ⟨82⟩
def demoNft : Address := ⟨83⟩
def demoSeller : Address := ⟨84⟩
def demoAlice : Address := ⟨85⟩
def demoBob : Address := ⟨86⟩

def demoLedger : Ledger := fun _ holder => if holder = demoHouse then 0 else 1000

/-- The NFT contract asks for no royalty. -/
def demoCall (sequence : ℕ) (call : Call) : Invocation demoHouse where
  sequence := sequence
  auths := [demoAdmin, demoSeller, demoAlice, demoBob]
  tokens := honestReplies demoLedger
  ownerOf _ _ := some demoSeller
  royaltyInfo _ _ _ := some none
  nftAccepts _ _ := true
  stakedBalance _ _ := none
  call := call
  outside := by decide

/-- Five percent of every sale go to the admin. -/
def demoInitialize : Invocation demoHouse :=
  demoCall 1 (.initializeMarketplace demoAdmin demoToken 500 demoAdmin)

end SorobanKit.Marketplace
