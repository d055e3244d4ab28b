import SorobanKit.HostBalances
import SorobanKit.MarketplaceMoves

set_option autoImplicit false

/-!
# The escrow of the offers

A batch of offers pays every item in full and writes over what was stored, so it loses an offer
it names again. As long as no call writes over an offer, the contract holds exactly the stored
offers, and each of them can be paid back.
-/
namespace SorobanKit.Marketplace
open HostBalances HostInteger HostInvocation HostRuns HostTransfers

/-- What a payment pays for a listing. -/
def Purpose.share (id : ℕ) : Purpose → ℤ
  | .offers shares => (shares.map fun share => if share.1 = id then share.2 else 0).sum
  | _ => 0

def Purpose.OnListing : Purpose → Prop
  | .offers _ | .offerRefund _ => True
  | _ => False

def paidFor (id : ℕ) (buyer : Address) (log : List (Transfer Purpose)) : ℤ :=
  (log.map fun x => if x.source = buyer then x.purpose.share id else 0).sum

def refundedFor (id : ℕ) (buyer : Address) (log : List (Transfer Purpose)) : ℤ :=
  sumOf (fun x => x.purpose = .offerRefund id ∧ x.target = buyer) log

def collectionPaid (id : ℕ) (buyer : Address) (log : List (Transfer Purpose)) : ℤ :=
  sumOf (fun x => x.purpose = .collectionOffer id ∧ x.source = buyer) log

def collectionRefunded (id : ℕ) (buyer : Address) (log : List (Transfer Purpose)) : ℤ :=
  sumOf (fun x => x.purpose = .collectionRefund id ∧ x.target = buyer) log

/-- The amount of a buyer's stored offer on a collection. -/
def collectionHeld (id : ℕ) (buyer : Address) (s : State) : ℤ :=
  part (fun _ offer => if offer.buyer = buyer then offer.amount else 0) s.collectionOffers id

/-- An offer counts in the token of its listing. -/
def offerIn (token : Address) (listings : Finmap (fun _ : ℕ => Listing)) (key : ℕ × Address)
    (offer : Offer) : ℤ :=
  if (listings.lookup key.1).map Listing.paymentToken = some token then offer.amount else 0

/-- The stored offers on listings priced in the token. -/
def offersIn (token : Address) (s : State) : ℤ := sumBy (offerIn token s.listings) s.offers

/-- The stored offers on collections, all in the default token. -/
def collectionOffersIn (token : Address) (s : State) : ℤ :=
  if s.paymentToken = some token then sumBy (fun _ offer => offer.amount) s.collectionOffers else 0

/-- What one payment is said to pay adds up to it. -/
def Itemized (log : List (Transfer Purpose)) : Prop :=
  ∀ x ∈ log, ∀ shares, x.purpose = .offers shares → x.amount = shareTotal shares

section Log
variable {id : ℕ} {buyer : Address} {xs ys : List (Transfer Purpose)}

theorem paidFor_append : paidFor id buyer (xs ++ ys) = paidFor id buyer xs + paidFor id buyer ys := by
  rw [paidFor, List.map_append, List.sum_append]
  rfl

theorem paidFor_eq_zero (h : ∀ x ∈ xs, x.purpose.share id = 0) : paidFor id buyer xs = 0 := by
  refine List.sum_eq_zero fun v hv => ?_
  obtain ⟨x, hx, rfl⟩ := List.mem_map.mp hv
  rw [h x hx, ite_self]

theorem refundedFor_append :
    refundedFor id buyer (xs ++ ys) = refundedFor id buyer xs + refundedFor id buyer ys :=
  sumOf_append _ _ _

theorem collectionPaid_append :
    collectionPaid id buyer (xs ++ ys) = collectionPaid id buyer xs + collectionPaid id buyer ys :=
  sumOf_append _ _ _

theorem collectionRefunded_append : collectionRefunded id buyer (xs ++ ys) =
    collectionRefunded id buyer xs + collectionRefunded id buyer ys :=
  sumOf_append _ _ _

theorem collectionPaid_onListing (id : ℕ) (buyer : Address) (h : ∀ x ∈ xs, x.purpose.OnListing) :
    collectionPaid id buyer xs = 0 ∧ collectionRefunded id buyer xs = 0 := by
  constructor <;> refine sumOf_eq_zero fun x hx => ?_
  all_goals
    have hkind := h x hx
    revert hkind
    cases x.purpose <;> simp [Purpose.OnListing]

theorem Itemized.append (hxs : Itemized xs) (hys : Itemized ys) : Itemized (xs ++ ys) := by
  intro x hx
  rcases List.mem_append.mp hx with hx | hx
  · exact hxs x hx
  · exact hys x hx

end Log

/-- A call that stores an offer where one is stored, after the full payment for both. -/
def Overwrites (s : State) : Call → Prop
  | .makeOffersBatch buyer tokenIds _ _ => ¬ tokenIds.Nodup ∨
      ∃ tokenId ∈ tokenIds, ∃ found ∈ findListingByToken tokenId s, (found.1, buyer) ∈ s.offers
  | .makeCollectionOffer .. => s.nextCollectionOfferId.getD 0 ∈ s.collectionOffers
  | _ => False

instance (s : State) (call : Call) : Decidable (Overwrites s call) := by
  cases call
  case makeOffersBatch => exact inferInstanceAs (Decidable (_ ∨ _))
  case makeCollectionOffer => exact inferInstanceAs (Decidable (_ ∈ _))
  all_goals exact inferInstanceAs (Decidable False)

structure Escrowed (house token : Address) (s : State) : Prop where
  admin_some : s.admin.isSome
  token_eq : s.paymentToken = some token
  numbered : Numbered s
  offers_ok : ∀ id buyer offer, s.offers.lookup (id, buyer) = some offer →
    0 < offer.amount ∧ buyer ≠ house ∧ ∃ listing, s.listings.lookup id = some listing
  collections_ok : ∀ id offer, s.collectionOffers.lookup id = some offer →
    0 < offer.amount ∧ offer.buyer ≠ house
  itemized : Itemized s.transfers
  gain_eq : ∀ T, gain T house s.transfers = offersIn T s + collectionOffersIn T s
  each_eq : ∀ id buyer, paidFor id buyer s.transfers =
    refundedFor id buyer s.transfers + offeredOn id buyer s
  collection_eq : ∀ id buyer, collectionPaid id buyer s.transfers =
    collectionRefunded id buyer s.transfers + collectionHeld id buyer s

section Steps
variable {house token : Address} {s t : State}

/-- New listings and closed ones leave every offer in its token. -/
theorem Escrowed.relisted (hs : Escrowed house token s) (h : Relisted s t) :
    Escrowed house token t := by
  have hoffers : ∀ T, offersIn T t = offersIn T s := by
    intro T
    rw [h.same]
    refine sumBy_congr fun key offer hkey => ?_
    obtain ⟨listing, hlisting⟩ := (hs.offers_ok key.1 key.2 offer hkey).2.2
    obtain ⟨later, hlater, hsame⟩ := h.kept key.1 listing hlisting
    dsimp only [offerIn]
    rw [hlater, hlisting, Option.map_some, Option.map_some, hsame]
  have hgain := hs.gain_eq
  refine ⟨?_, ?_, h.numbered, fun id buyer offer hoffer => ?_, ?_, ?_, fun T => ?_, ?_, ?_⟩
  · rw [h.same]
    exact hs.admin_some
  · rw [h.same]
    exact hs.token_eq
  · rw [h.same] at hoffer
    obtain ⟨hamount, hne, listing, hlisting⟩ := hs.offers_ok id buyer offer hoffer
    obtain ⟨later, hlater, _⟩ := h.kept id listing hlisting
    exact ⟨hamount, hne, later, hlater⟩
  · rw [h.same]
    exact hs.collections_ok
  · rw [h.same]
    exact hs.itemized
  · rw [hoffers, h.same]
    exact hgain T
  · rw [h.same]
    exact hs.each_eq
  · rw [h.same]
    exact hs.collection_eq

/-- The stored offers change as the payments `xs` say. -/
theorem Escrowed.moved (hs : Escrowed house token s) {offers : Finmap (fun _ : ℕ × Address => Offer)}
    (highest : Finmap (fun _ : ℕ => ℤ)) {xs : List (Transfer Purpose)}
    (hoffers : ∀ id buyer offer, offers.lookup (id, buyer) = some offer →
      0 < offer.amount ∧ buyer ≠ house ∧ ∃ listing, s.listings.lookup id = some listing)
    (hkind : ∀ x ∈ xs, x.purpose.OnListing) (hitems : Itemized xs)
    (hgain : ∀ T, gain T house xs = sumBy (offerIn T s.listings) offers - offersIn T s)
    (heach : ∀ id buyer, paidFor id buyer xs - refundedFor id buyer xs =
      part (fun _ offer => offer.amount) offers (id, buyer) - offeredOn id buyer s) :
    Escrowed house token { s with
      offers := offers, highestOffers := highest, transfers := s.transfers ++ xs } := by
  refine { hs with
    offers_ok := hoffers
    itemized := hs.itemized.append hitems
    gain_eq := fun T => ?_
    each_eq := fun id buyer => ?_
    collection_eq := fun id buyer => ?_ }
  · have hold := hs.gain_eq T
    dsimp only
    rw [gain_append, hgain, hold]
    simp only [offersIn, collectionOffersIn]
    omega
  · have hold := hs.each_eq id buyer
    have hnew := heach id buyer
    change _ = _ + part (fun _ offer => offer.amount) offers (id, buyer)
    dsimp only
    rw [paidFor_append, refundedFor_append]
    omega
  · obtain ⟨hpaid, hrefunded⟩ := collectionPaid_onListing id buyer hkind
    change collectionPaid id buyer (s.transfers ++ xs) =
      collectionRefunded id buyer (s.transfers ++ xs) + collectionHeld id buyer s
    rw [collectionPaid_append, collectionRefunded_append, hpaid, hrefunded, add_zero, add_zero]
    exact hs.collection_eq id buyer

theorem gain_deltaPay {id : ℕ} {T paid buyer : Address} {prior amount : ℤ} (hne : buyer ≠ house) :
    gain T house (deltaPay house id paid buyer prior amount) =
      if paid = T then amount - prior else 0 := by
  unfold deltaPay
  split
  · exact gain_incoming_ite _ _ _ hne
  · split
    · rw [gain_outgoing_ite _ _ _ hne]
      split <;> omega
    · rw [gain_nil]
      split <;> omega

theorem each_deltaPay {id other : ℕ} {paid buyer holder : Address} {prior amount : ℤ} :
    paidFor other holder (deltaPay house id paid buyer prior amount) -
        refundedFor other holder (deltaPay house id paid buyer prior amount) =
      if (other, holder) = (id, buyer) then amount - prior else 0 := by
  simp only [Prod.mk.injEq, deltaPay, paidFor, refundedFor]
  split
  · simp only [List.map_cons, List.map_nil, List.sum_cons, List.sum_nil, Purpose.share, sumOf_cons,
      sumOf_nil, reduceCtorEq, false_and, decide_false, Bool.false_eq_true, if_false]
    grind
  · split
    · simp only [List.map_cons, List.map_nil, List.sum_cons, List.sum_nil, Purpose.share, sumOf_cons,
        sumOf_nil, Purpose.offerRefund.injEq, decide_eq_true_eq]
      grind
    · simp only [List.map_nil, List.sum_nil, sumOf_nil]
      grind

theorem deltaPay_onListing {id : ℕ} {paid buyer : Address} {prior amount : ℤ} :
    ∀ x ∈ deltaPay house id paid buyer prior amount, x.purpose.OnListing := by
  intro x hx
  unfold deltaPay at hx
  split at hx
  · rw [List.mem_singleton.mp hx]
    trivial
  · split at hx
    · rw [List.mem_singleton.mp hx]
      trivial
    · cases hx

theorem deltaPay_itemized {id : ℕ} {paid buyer : Address} {prior amount : ℤ} :
    Itemized (deltaPay house id paid buyer prior amount) := by
  intro x hx shares hshares
  unfold deltaPay at hx
  split at hx
  · rw [List.mem_singleton.mp hx] at hshares ⊢
    cases hshares
    simp [shareTotal]
  · split at hx
    · rw [List.mem_singleton.mp hx] at hshares
      cases hshares
    · cases hx

theorem Escrowed.offered (hs : Escrowed house token s) {buyer : Address} {id : ℕ} {listing : Listing}
    {amount : ℤ} (expirationLedger : ℕ) (highest : Finmap (fun _ : ℕ => ℤ)) (hne : buyer ≠ house)
    (hlisting : s.listings.lookup id = some listing) (hamount : 0 < amount) :
    Escrowed house token { s with
      offers := s.offers.insert (id, buyer) ⟨amount, expirationLedger⟩,
      highestOffers := highest,
      transfers := s.transfers ++
        deltaPay house id listing.paymentToken buyer (offeredOn id buyer s) amount } := by
  refine hs.moved highest (fun other holder offer hoffer => ?_) deltaPay_onListing deltaPay_itemized
    (fun T => ?_) (fun other holder => ?_)
  · rw [lookup_insert_ite] at hoffer
    split at hoffer
    · next hkey =>
      cases hkey
      cases hoffer
      exact ⟨hamount, hne, listing, hlisting⟩
    · exact hs.offers_ok other holder offer hoffer
  · have hpart : part (offerIn T s.listings) s.offers (id, buyer) =
        if listing.paymentToken = T then offeredOn id buyer s else 0 := by
      unfold part offeredOn offerIn
      dsimp only
      rw [hlisting]
      cases s.offers.lookup (id, buyer) <;> simp
    rw [gain_deltaPay hne, sumBy_insert, hpart, offersIn]
    dsimp only [offerIn]
    rw [hlisting, Option.map_some]
    simp only [Option.some.injEq]
    split <;> omega
  · rw [each_deltaPay, part, lookup_insert_ite]
    split
    · next hkey =>
      cases hkey
      rfl
    · exact (sub_self _).symm

theorem Escrowed.refunded (hs : Escrowed house token s) {buyer : Address} {id : ℕ} {listing : Listing}
    {offer : Offer} (hlisting : s.listings.lookup id = some listing)
    (hoffer : s.offers.lookup (id, buyer) = some offer) :
    Escrowed house token { s with
      offers := s.offers.erase (id, buyer),
      transfers := s.transfers ++
        [⟨.offerRefund id, listing.paymentToken, house, buyer, offer.amount⟩] } := by
  have hne := (hs.offers_ok id buyer offer hoffer).2.1
  refine hs.moved s.highestOffers (fun other holder found hfound => ?_) (fun x hx => ?_)
    (fun x hx shares hshares => ?_) (fun T => ?_) (fun other holder => ?_)
  · exact hs.offers_ok other holder found (of_lookup_erase hfound).2
  · rw [List.mem_singleton.mp hx]
    trivial
  · rw [List.mem_singleton.mp hx] at hshares
    cases hshares
  · rw [gain_outgoing_ite _ _ _ hne, sumBy_erase, part_of_lookup hoffer, offersIn, offerIn, hlisting,
      Option.map_some]
    simp only [Option.some.injEq]
    split <;> omega
  · rw [paidFor_eq_zero (by simp [Purpose.share]), refundedFor, sumOf_cons, sumOf_nil, part,
      lookup_erase_ite]
    simp only [Purpose.offerRefund.injEq, decide_eq_true_eq]
    by_cases hkey : (other, holder) = (id, buyer)
    · cases hkey
      rw [if_pos rfl, if_pos ⟨rfl, rfl⟩, offeredOn, hoffer]
      simp
    · rw [if_neg hkey, if_neg fun h => hkey (Prod.ext h.1.symm h.2.symm)]
      exact (sub_self _).symm

theorem sweepOne_escrowed {env : Env} (hs : Escrowed house token s) {id : ℕ} {listing : Listing}
    {buyer : Address} (hlisting : s.listings.lookup id = some listing)
    (h : sweepOne house env id listing.paymentToken s buyer = .ok t) :
    Escrowed house token t ∧ t.listings = s.listings := by
  unfold sweepOne at h
  split at h
  · next offer hoffer =>
    rw [recordTransfer_ok h]
    exact ⟨hs.refunded hlisting hoffer, rfl⟩
  · rw [pure_eq_ok] at h
    rw [← h]
    exact ⟨hs, rfl⟩

theorem sweep_escrowed {env : Env} (hs : Escrowed house token s) {id : ℕ} {listing : Listing}
    {buyers : List Address} (hlisting : s.listings.lookup id = some listing)
    (h : buyers.foldlM (sweepOne house env id listing.paymentToken) s = .ok t) :
    Escrowed house token t := by
  induction buyers generalizing s with
  | nil =>
    rw [List.foldlM_nil, pure_eq_ok] at h
    rw [← h]
    exact hs
  | cons buyer buyers ih =>
    rw [List.foldlM_cons, bind_eq_ok] at h
    obtain ⟨s₁, hone, h⟩ := h
    obtain ⟨hs₁, hsame⟩ := sweepOne_escrowed hs hlisting hone
    exact ih hs₁ (by rw [hsame, hlisting]) h

theorem offerShares_nodup {items : List (ℕ × ℤ)} (h : (items.map Prod.fst).Nodup) :
    ((offerShares s items).map Prod.fst).Nodup := by
  induction items with
  | nil => exact List.nodup_nil
  | cons item items ih =>
    rw [List.map_cons, List.nodup_cons] at h
    obtain ⟨hitem, hrest⟩ := h
    cases hfound : findListingByToken item.1 s with
    | none =>
      have hskip : offerShares s (item :: items) = offerShares s items := by
        rw [offerShares, List.filterMap_cons, hfound]
        rfl
      rw [hskip]
      exact ih hrest
    | some found =>
      rw [offerShares_cons items hfound, List.map_cons, List.nodup_cons]
      refine ⟨fun hmem => ?_, ih hrest⟩
      -- a second item with this listing would ask for the same token
      obtain ⟨share, hshare, hsame⟩ := List.mem_map.mp hmem
      obtain ⟨other, hother, hmap⟩ := List.mem_filterMap.mp hshare
      obtain ⟨found', hfound', rfl⟩ := Option.map_eq_some_iff.mp hmap
      obtain ⟨hlookup, htoken⟩ := findListingByToken_ok hfound
      obtain ⟨hlookup', htoken'⟩ := findListingByToken_ok hfound'
      have hid : found'.1 = found.1 := hsame
      rw [hid, hlookup] at hlookup'
      have hsame' := Option.some.inj hlookup'
      refine hitem (List.mem_map.mpr ⟨other, hother, ?_⟩)
      rw [← htoken', ← hsame', htoken]

theorem sumBy_storeShares (f : ℕ × Address → Offer → ℤ) {buyer : Address} {expiration : ℕ}
    {shares : List (ℕ × ℤ)} {offers : Finmap (fun _ : ℕ × Address => Offer)}
    (hnodup : (shares.map Prod.fst).Nodup) (hfree : ∀ share ∈ shares, (share.1, buyer) ∉ offers) :
    sumBy f (storeShares buyer expiration shares offers) = sumBy f offers +
      (shares.map fun share => f (share.1, buyer) ⟨share.2, expiration⟩).sum := by
  induction shares generalizing offers with
  | nil => simp [storeShares]
  | cons share shares ih =>
    rw [List.map_cons, List.nodup_cons] at hnodup
    obtain ⟨hnew, hnodup⟩ := hnodup
    obtain ⟨hslot, hfree⟩ := List.forall_mem_cons.mp hfree
    have hnext : ∀ other ∈ shares, (other.1, buyer) ∉
        offers.insert (share.1, buyer) ⟨share.2, expiration⟩ := by
      intro other hother hmem
      rcases Finmap.mem_insert.mp hmem with hkey | hmem
      · obtain ⟨hid, _⟩ := Prod.mk.inj hkey
        rw [← hid] at hnew
        exact hnew (List.mem_map_of_mem hother)
      · exact hfree other hother hmem
    change sumBy f (storeShares buyer expiration shares (offers.insert _ _)) = _
    rw [ih hnodup hnext, sumBy_insert_of_notMem f _ hslot, List.map_cons, List.sum_cons]
    omega

theorem storeShares_lookup {buyer holder : Address} {expiration id : ℕ} {shares : List (ℕ × ℤ)}
    {offers : Finmap (fun _ : ℕ × Address => Offer)} {offer : Offer}
    (h : (storeShares buyer expiration shares offers).lookup (id, holder) = some offer) :
    offers.lookup (id, holder) = some offer ∨ (holder = buyer ∧ (id, offer.amount) ∈ shares) := by
  induction shares generalizing offers with
  | nil => exact .inl h
  | cons share shares ih =>
    rcases ih h with hold | ⟨hbuyer, hmem⟩
    · rw [lookup_insert_ite] at hold
      split at hold
      · next hkey =>
        cases hkey
        cases hold
        exact .inr ⟨rfl, List.mem_cons_self⟩
      · exact .inl hold
    · exact .inr ⟨hbuyer, List.mem_cons_of_mem _ hmem⟩

theorem Escrowed.offeredBatch (hs : Escrowed house token s) {buyer : Address} (expiration : ℕ)
    {shares : List (ℕ × ℤ)} (hne : buyer ≠ house) (hnodup : (shares.map Prod.fst).Nodup)
    (hfree : ∀ share ∈ shares, (share.1, buyer) ∉ s.offers) {paid : Address}
    (hshares : ∀ share ∈ shares, 0 < share.2 ∧
      ∃ listing, s.listings.lookup share.1 = some listing ∧ listing.paymentToken = paid) :
    Escrowed house token { s with
      offers := storeShares buyer expiration shares s.offers,
      transfers := s.transfers ++ [⟨.offers shares, paid, buyer, house, shareTotal shares⟩] } := by
  refine hs.moved s.highestOffers (fun id holder offer hoffer => ?_) (fun x hx => ?_)
    (fun x hx items hitems => ?_) (fun T => ?_) (fun id holder => ?_)
  · rcases storeShares_lookup hoffer with hold | ⟨rfl, hmem⟩
    · exact hs.offers_ok id holder offer hold
    · obtain ⟨hamount, listing, hlisting, _⟩ := hshares _ hmem
      exact ⟨hamount, hne, listing, hlisting⟩
  · rw [List.mem_singleton.mp hx]
    trivial
  · rw [List.mem_singleton.mp hx] at hitems ⊢
    cases hitems
    rfl
  · have hsum : (shares.map fun share => offerIn T s.listings (share.1, buyer)
        ⟨share.2, expiration⟩) = shares.map fun share => if paid = T then share.2 else 0 := by
      refine List.map_congr_left fun share hshare => ?_
      obtain ⟨_, listing, hlisting, rfl⟩ := hshares share hshare
      dsimp only [offerIn]
      rw [hlisting, Option.map_some]
      simp only [Option.some.injEq]
    rw [gain_incoming_ite _ _ _ hne, sumBy_storeShares _ hnodup hfree, hsum, offersIn, add_sub_cancel_left]
    split
    · rfl
    · simp
  · rw [← sumBy_single, sumBy_storeShares _ hnodup hfree, sumBy_single]
    have hpaid : paidFor id holder [⟨.offers shares, paid, buyer, house, shareTotal shares⟩] =
        (shares.map fun share => if (share.1, buyer) = (id, holder) then share.2 else 0).sum := by
      simp only [paidFor, List.map_cons, List.map_nil, List.sum_cons, List.sum_nil, add_zero,
        Purpose.share, Prod.mk.injEq]
      by_cases hbuyer : buyer = holder <;> simp [hbuyer]
    have hnone : refundedFor id holder
        [⟨.offers shares, paid, buyer, house, shareTotal shares⟩] = 0 :=
      sumOf_eq_zero (by simp)
    rw [hpaid, hnone, offeredOn, part]
    dsimp only
    omega

/-- The stored offers on collections change as the payment `x` says. -/
theorem Escrowed.collected (hs : Escrowed house token s)
    {offers : Finmap (fun _ : ℕ => CollectionOffer)} (next : Option ℕ) {x : Transfer Purpose}
    (hoffers : ∀ id offer, offers.lookup id = some offer → 0 < offer.amount ∧ offer.buyer ≠ house)
    (hkind : ∃ id, x.purpose = .collectionOffer id ∨ x.purpose = .collectionRefund id)
    (hgain : ∀ T, gain T house [x] = if token = T then
      sumBy (fun _ offer => offer.amount) offers -
        sumBy (fun _ offer => offer.amount) s.collectionOffers else 0)
    (heach : ∀ id buyer, collectionPaid id buyer [x] - collectionRefunded id buyer [x] =
      part (fun _ offer => if offer.buyer = buyer then offer.amount else 0) offers id -
        collectionHeld id buyer s) :
    Escrowed house token { s with
      collectionOffers := offers, nextCollectionOfferId := next,
      transfers := s.transfers ++ [x] } := by
  have hpurpose : (∀ id, x.purpose.share id = 0) ∧ (∀ id, x.purpose ≠ .offerRefund id) ∧
      ∀ shares, x.purpose ≠ .offers shares := by
    obtain ⟨id, hid | hid⟩ := hkind <;> simp [hid, Purpose.share]
  obtain ⟨hshare, hrefund, hitems⟩ := hpurpose
  refine { hs with
    collections_ok := hoffers
    itemized := hs.itemized.append fun y hy shares hshares => ?_
    gain_eq := fun T => ?_
    each_eq := fun id buyer => ?_
    collection_eq := fun id buyer => ?_ }
  · rw [List.mem_singleton.mp hy] at hshares
    exact absurd hshares (hitems shares)
  · have hold := hs.gain_eq T
    dsimp only
    rw [gain_append, hgain, hold]
    simp only [offersIn, collectionOffersIn, hs.token_eq, Option.some.injEq]
    split <;> omega
  · have hpaid : paidFor id buyer [x] = 0 := paidFor_eq_zero (by simp [hshare])
    have hnone : refundedFor id buyer [x] = 0 := sumOf_eq_zero (by simp [hrefund])
    dsimp only
    rw [paidFor_append, refundedFor_append, hpaid, hnone, add_zero, add_zero]
    exact hs.each_eq id buyer
  · have hold := hs.collection_eq id buyer
    have hnew := heach id buyer
    change _ = _ + part _ offers id
    dsimp only
    rw [collectionPaid_append, collectionRefunded_append]
    omega

theorem Escrowed.collectionOffered (hs : Escrowed house token s) {buyer : Address}
    (nft : Address) {amount : ℤ} {id : ℕ} (expiresAt : ℕ) (next : Option ℕ) (hne : buyer ≠ house)
    (hamount : 0 < amount) (hfree : id ∉ s.collectionOffers) :
    Escrowed house token { s with
      collectionOffers := s.collectionOffers.insert id ⟨buyer, nft, amount, expiresAt⟩,
      nextCollectionOfferId := next,
      transfers := s.transfers ++ [⟨.collectionOffer id, token, buyer, house, amount⟩] } := by
  have hnone := Finmap.lookup_eq_none.mpr hfree
  refine hs.collected next (fun other offer hoffer => ?_) ⟨id, .inl rfl⟩ (fun T => ?_)
    (fun other holder => ?_)
  · rw [lookup_insert_ite] at hoffer
    split at hoffer
    · cases hoffer
      exact ⟨hamount, hne⟩
    · exact hs.collections_ok other offer hoffer
  · rw [gain_incoming_ite _ _ _ hne, sumBy_insert_of_notMem _ _ hfree]
    dsimp only
    split <;> omega
  · have hrefunded : collectionRefunded other holder
        [⟨.collectionOffer id, token, buyer, house, amount⟩] = 0 := sumOf_eq_zero (by simp)
    rw [hrefunded, collectionPaid, sumOf_cons, sumOf_nil, collectionHeld]
    simp only [Purpose.collectionOffer.injEq, decide_eq_true_eq]
    by_cases hid : other = id
    · rw [hid, part_of_lookup (Finmap.lookup_insert _), part_of_none hnone]
      simp only [true_and]
      omega
    · rw [if_neg fun h => hid h.1.symm, part, Finmap.lookup_insert_of_ne _ hid]
      exact (sub_self _).symm

theorem Escrowed.collectionCancelled (hs : Escrowed house token s) {id : ℕ} {offer : CollectionOffer}
    (hoffer : s.collectionOffers.lookup id = some offer) :
    Escrowed house token { s with
      collectionOffers := s.collectionOffers.erase id,
      transfers := s.transfers ++
        [⟨.collectionRefund id, token, house, offer.buyer, offer.amount⟩] } := by
  have hne := (hs.collections_ok id offer hoffer).2
  refine hs.collected s.nextCollectionOfferId (fun other found hfound => ?_) ⟨id, .inr rfl⟩
    (fun T => ?_) (fun other holder => ?_)
  · exact hs.collections_ok other found (of_lookup_erase hfound).2
  · rw [gain_outgoing_ite _ _ _ hne, sumBy_erase, part_of_lookup hoffer]
    split <;> omega
  · have hpaid : collectionPaid other holder
        [⟨.collectionRefund id, token, house, offer.buyer, offer.amount⟩] = 0 :=
      sumOf_eq_zero (by simp)
    rw [hpaid, collectionRefunded, sumOf_cons, sumOf_nil, collectionHeld]
    simp only [Purpose.collectionRefund.injEq, decide_eq_true_eq]
    by_cases hid : other = id
    · rw [hid, part_of_none (Finmap.lookup_erase _ _), part_of_lookup hoffer]
      simp only [true_and]
      omega
    · rw [if_neg fun h => hid h.1.symm, part, Finmap.lookup_erase_ne hid]
      exact (sub_self _).symm

theorem Overwrites.free {buyer : Address} {tokenIds : List ℕ} {prices : List ℤ} {expiration : ℕ}
    (h : ¬ Overwrites s (.makeOffersBatch buyer tokenIds prices expiration)) :
    tokenIds.Nodup ∧
      ∀ share ∈ offerShares s (tokenIds.zip prices), (share.1, buyer) ∉ s.offers := by
  obtain ⟨hnodup, hfree⟩ := not_or.mp h
  refine ⟨not_not.mp hnodup, fun share hshare hmem => hfree ?_⟩
  obtain ⟨item, hitem, hmap⟩ := List.mem_filterMap.mp hshare
  obtain ⟨found, hfound, rfl⟩ := Option.map_eq_some_iff.mp hmap
  exact ⟨item.1, (List.of_mem_zip hitem).1, found, hfound, hmem⟩

theorem exec_escrowed {i : Invocation house} (hs : Escrowed house token s) (hsells : ¬ i.call.Sells)
    (hslots : ¬ Overwrites s i.call) (h : exec i s = .ok t) : Escrowed house token t := by
  have hne : ∀ a ∈ i.auths, a ≠ house := by
    rintro a ha rfl
    exact i.outside ha
  have htoken : ∀ other, s.paymentToken = some other → other = token := fun other hother => by
    rw [hs.token_eq] at hother
    exact (Option.some.inj hother).symm
  cases exec_move hs.numbered h with
  | initialized hnone =>
    have hsome := hs.admin_some
    rw [hnone] at hsome
    cases hsome
  | configured hsplits h =>
    rw [h]
    exact { hs with }
  | relisted h => exact hs.relisted h
  | bundled hprices h =>
    rw [h]
    exact { hs with }
  | offered buyer id listing amount expirationLedger hauth hlisting hamount h =>
    rw [h]
    exact hs.offered expirationLedger _ (hne buyer hauth) hlisting hamount
  | offeredBatch buyer paid tokenIds prices expiration hcall hlength hauth hshares h =>
    rw [hcall] at hslots
    obtain ⟨hnodup, hfree⟩ := Overwrites.free hslots
    have hkeys : ((tokenIds.zip prices).map Prod.fst).Nodup := by
      rw [List.map_fst_zip (Nat.le_of_eq hlength)]
      exact hnodup
    rw [h]
    exact hs.offeredBatch expiration (hne buyer hauth) (offerShares_nodup hkeys) hfree hshares
  | refunded buyer id listing offer hlisting hoffer h =>
    rw [h]
    exact hs.refunded hlisting hoffer
  | swept id listing buyers u hlisting hfold h =>
    have hlocked : Escrowed house token { s with locked := true } := { hs with }
    have hu := sweep_escrowed hlocked hlisting hfold
    rw [h]
    exact { hu with }
  | collectionOffered buyer nftContract paid amount expiresAt hcall hauth hpaid hamount h =>
    rw [hcall] at hslots
    obtain rfl := htoken paid hpaid
    rw [h]
    exact hs.collectionOffered nftContract expiresAt _ (hne buyer hauth) hamount hslots
  | collectionCancelled id offer paid hpaid hoffer h =>
    obtain rfl := htoken paid hpaid
    rw [h]
    exact hs.collectionCancelled hoffer
  | sold hcall => exact absurd hcall hsells

end Steps

section Refunds
variable {house token : Address} {ledger : Ledger} {s : State}

theorem Escrowed.collections_nonneg (hs : Escrowed house token s) :
    0 ≤ sumBy (fun _ offer => offer.amount) s.collectionOffers :=
  sumBy_nonneg fun id offer hoffer => le_of_lt (hs.collections_ok id offer hoffer).1

theorem Escrowed.offerIn_nonneg (hs : Escrowed house token s) (T : Address) {key : ℕ × Address}
    {offer : Offer} (hoffer : s.offers.lookup key = some offer) : 0 ≤ offerIn T s.listings key offer := by
  have hamount := (hs.offers_ok key.1 key.2 offer hoffer).1
  unfold offerIn
  split <;> omega

theorem Escrowed.offer_covered (hs : Escrowed house token s) {id : ℕ} {buyer : Address} {offer : Offer}
    {listing : Listing} (hoffer : s.offers.lookup (id, buyer) = some offer)
    (hlisting : s.listings.lookup id = some listing) :
    offer.amount ≤ gain listing.paymentToken house s.transfers := by
  have hpart : part (offerIn listing.paymentToken s.listings) s.offers (id, buyer) ≤
      offersIn listing.paymentToken s :=
    part_le_sumBy (fun key offer hkey => hs.offerIn_nonneg listing.paymentToken hkey) (id, buyer)
  rw [part_of_lookup hoffer, offerIn, hlisting, Option.map_some, if_pos rfl] at hpart
  have hrest := hs.collections_nonneg
  rw [hs.gain_eq, collectionOffersIn]
  split <;> omega

theorem Escrowed.collection_covered (hs : Escrowed house token s) {id : ℕ} {offer : CollectionOffer}
    (hoffer : s.collectionOffers.lookup id = some offer) :
    offer.amount ≤ gain token house s.transfers := by
  have hpart : part (fun _ offer => offer.amount) s.collectionOffers id ≤
      sumBy (fun _ offer => offer.amount) s.collectionOffers :=
    part_le_sumBy (fun id offer hid => le_of_lt (hs.collections_ok id offer hid).1) id
  rw [part_of_lookup hoffer] at hpart
  have hrest : 0 ≤ offersIn token s := sumBy_nonneg fun key offer hkey => hs.offerIn_nonneg token hkey
  rw [hs.gain_eq, collectionOffersIn, if_pos hs.token_eq]
  omega

theorem requireInitialized_some (h : s.admin.isSome) : s.requireInitialized = .ok () := by
  apply rejectIf_neg
  cases hadmin : s.admin with
  | none =>
    rw [hadmin] at h
    cases h
  | some admin => simp

theorem Escrowed.cancelOffer_pays (hs : Escrowed house token s) {id : ℕ} {buyer : Address}
    {offer : Offer} {listing : Listing} {i : Invocation house}
    (hempty : ledger listing.paymentToken house = 0)
    (hoffer : s.offers.lookup (id, buyer) = some offer) (hlisting : s.listings.lookup id = some listing)
    (hcall : i.call = .cancelOffer buyer id) (hauth : buyer ∈ i.auths)
    (hpays : i.tokens.Pays ledger s.transfers listing.paymentToken house) :
    exec i s = .ok { s with
      offers := s.offers.erase (id, buyer),
      transfers := s.transfers ++
        [⟨.offerRefund id, listing.paymentToken, house, buyer, offer.amount⟩] } := by
  have hamount := (hs.offers_ok id buyer offer hoffer).1
  have hcovered := hs.offer_covered hoffer hlisting
  have haccepts := hpays ⟨.offerRefund id, listing.paymentToken, house, buyer, offer.amount⟩ rfl rfl
    (le_of_lt hamount) (by rw [replay_eq_gain, hempty, zero_add]; exact hcovered)
  have hauthorized : requireAuth i.toContext buyer = (.ok () : Result MarketplaceError Unit) :=
    requireAuth_eq_ok.mpr hauth
  unfold exec
  rw [hcall]
  dsimp only
  rw [cancelOffer, requireInitialized_some hs.admin_some, ok_bind, hauthorized, ok_bind, getListing,
    hlisting, hoffer]
  exact recordTransfer_accepted haccepts

theorem Escrowed.cancelCollectionOffer_pays (hs : Escrowed house token s) {id : ℕ}
    {offer : CollectionOffer} {i : Invocation house} (hempty : ledger token house = 0)
    (hoffer : s.collectionOffers.lookup id = some offer)
    (hcall : i.call = .cancelCollectionOffer offer.buyer id) (hauth : offer.buyer ∈ i.auths)
    (hpays : i.tokens.Pays ledger s.transfers token house) :
    exec i s = .ok { s with
      collectionOffers := s.collectionOffers.erase id,
      transfers := s.transfers ++
        [⟨.collectionRefund id, token, house, offer.buyer, offer.amount⟩] } := by
  have hamount := (hs.collections_ok id offer hoffer).1
  have hcovered := hs.collection_covered hoffer
  have haccepts := hpays ⟨.collectionRefund id, token, house, offer.buyer, offer.amount⟩ rfl rfl
    (le_of_lt hamount) (by rw [replay_eq_gain, hempty, zero_add]; exact hcovered)
  have hauthorized : requireAuth i.toContext offer.buyer = (.ok () : Result MarketplaceError Unit) :=
    requireAuth_eq_ok.mpr hauth
  have hbuyer : rejectIf (offer.buyer ≠ offer.buyer) MarketplaceError.notAuthorized = .ok () :=
    rejectIf_neg (by simp)
  unfold exec
  rw [hcall]
  dsimp only
  rw [cancelCollectionOffer, hs.token_eq]
  change (requireAuth i.toContext offer.buyer >>= _) = _
  rw [hauthorized, ok_bind, hoffer]
  change (rejectIf (offer.buyer ≠ offer.buyer) MarketplaceError.notAuthorized >>= _) = _
  rw [hbuyer, ok_bind]
  exact recordTransfer_accepted haccepts

end Refunds

theorem initializeMarketplace_escrowed {house : Address} {env : Env} {admin token : Address}
    {royaltyBps : ℕ} {royaltyRecipient : Address} {s : State}
    (h : initializeMarketplace env admin token royaltyBps royaltyRecipient State.empty = .ok s) :
    Escrowed house token s := by
  simp only [initializeMarketplace, bind_eq_ok, pure_eq_ok] at h
  obtain ⟨_, _, _, _, _, _, _, _, rfl⟩ := h
  refine ⟨rfl, rfl, fun id listing h => ?_, fun id buyer offer h => ?_, fun id offer h => ?_,
    fun x hx => ?_, fun T => ?_, fun _ _ => rfl, fun _ _ => rfl⟩
  · simp [State.empty] at h
  · simp [State.empty] at h
  · simp [State.empty] at h
  · cases hx
  · simp [State.empty, offersIn, collectionOffersIn]

/-- In every run without a sale whose calls write over no offer: the contract holds, of every token,
    exactly the offers on listings in it and on collections; every buyer got back what their offer
    fell by; and every stored offer can be cancelled for exactly its amount. -/
theorem offers_escrowed (house admin token : Address) (royaltyBps : ℕ) (royaltyRecipient : Address)
    (i₀ : Invocation house) (s : State)
    (hcall : i₀.call = .initializeMarketplace admin token royaltyBps royaltyRecipient)
    (hinit : exec i₀ State.empty = .ok s) (is : List (Invocation house))
    (hsells : ∀ i ∈ is, ¬ i.call.Sells)
    (hslots : ∀ e ∈ history exec s is, ¬ Overwrites e.before e.invocation.call) (ledger : Ledger)
    (hempty : ∀ T, ledger T house = 0) :
    (∀ T, replay ledger (run s is).transfers T house =
      offersIn T (run s is) + collectionOffersIn T (run s is)) ∧
    Itemized (run s is).transfers ∧
    (∀ id buyer, paidFor id buyer (run s is).transfers =
      refundedFor id buyer (run s is).transfers + offeredOn id buyer (run s is)) ∧
    (∀ id buyer, collectionPaid id buyer (run s is).transfers =
      collectionRefunded id buyer (run s is).transfers + collectionHeld id buyer (run s is)) ∧
    (∀ id buyer offer, (run s is).offers.lookup (id, buyer) = some offer →
      0 < offer.amount ∧ ∃ listing, (run s is).listings.lookup id = some listing ∧
        ∀ j : Invocation house, j.call = .cancelOffer buyer id → buyer ∈ j.auths →
          j.tokens.Pays ledger (run s is).transfers listing.paymentToken house →
          exec j (run s is) = .ok { run s is with
            offers := (run s is).offers.erase (id, buyer),
            transfers := (run s is).transfers ++
              [⟨.offerRefund id, listing.paymentToken, house, buyer, offer.amount⟩] }) ∧
    ∀ id offer, (run s is).collectionOffers.lookup id = some offer →
      0 < offer.amount ∧
        ∀ j : Invocation house, j.call = .cancelCollectionOffer offer.buyer id →
          offer.buyer ∈ j.auths → j.tokens.Pays ledger (run s is).transfers token house →
          exec j (run s is) = .ok { run s is with
            collectionOffers := (run s is).collectionOffers.erase id,
            transfers := (run s is).transfers ++
              [⟨.collectionRefund id, token, house, offer.buyer, offer.amount⟩] } := by
  have hs : Escrowed house token s := by
    unfold exec at hinit
    rw [hcall] at hinit
    exact initializeMarketplace_escrowed hinit
  have halong := (along_of_history (Q := fun s i => ¬ Overwrites s i.call) hslots).and_forall hsells
  have hrun : Escrowed house token (run s is) :=
    run_invariant_along
      (fun s i t hs hi hok => exec_escrowed hs hi.2 (hi.1 t hok) hok) hs halong
  refine ⟨fun T => ?_, hrun.itemized, hrun.each_eq, hrun.collection_eq,
    fun id buyer offer hoffer => ?_, fun id offer hoffer => ?_⟩
  · rw [replay_eq_gain, hempty, hrun.gain_eq, zero_add]
  · obtain ⟨hamount, _, listing, hlisting⟩ := hrun.offers_ok id buyer offer hoffer
    exact ⟨hamount, listing, hlisting, fun j hj hauth hpays =>
      hrun.cancelOffer_pays (hempty _) hoffer hlisting hj hauth hpays⟩
  · exact ⟨(hrun.collections_ok id offer hoffer).1, fun j hj hauth hpays =>
      hrun.cancelCollectionOffer_pays (hempty _) hoffer hj hauth hpays⟩

def demoList (tokenId : ℕ) : Invocation demoHouse :=
  demoCall 2 (.list demoSeller demoNft tokenId 100 demoToken)

/-- Alice lowers her first offer and adds one in a batch, Bob's offer is swept. -/
def demoOffers : List (Invocation demoHouse) :=
  [demoList 7, demoList 8, demoCall 3 (.makeOffer demoAlice 0 40 20),
    demoCall 3 (.makeOffer demoBob 0 60 20), demoCall 4 (.makeOffer demoAlice 0 30 20),
    demoCall 4 (.makeOffersBatch demoAlice [8] [50] 20),
    demoCall 5 (.makeCollectionOffer demoBob demoNft 70 20), demoCall 6 (.cancel demoSeller 0),
    demoCall 6 (.sweepOffers 0 [demoBob, demoBob])]

theorem offers_escrowed_demo :
    replay demoLedger (run (run State.empty [demoInitialize]) demoOffers).transfers demoToken
        demoHouse = 80 + 70 ∧
      paidFor 0 demoAlice (run (run State.empty [demoInitialize]) demoOffers).transfers = 40 ∧
      (exec (demoCall 7 (.cancelOffer demoAlice 0))
        (run (run State.empty [demoInitialize]) demoOffers)).toOption.isSome := by
  have hescrow := offers_escrowed demoHouse demoAdmin demoToken 500 demoAdmin demoInitialize
    (run State.empty [demoInitialize]) rfl rfl demoOffers
    (by simp [demoOffers, demoList, demoCall, Call.Sells]) (by decide +kernel) demoLedger
    (fun _ => rfl)
  obtain ⟨hbalance, _, heach, _, hcancel, _⟩ := hescrow
  have hoffer : (run (run State.empty [demoInitialize]) demoOffers).offers.lookup (0, demoAlice) =
      some ⟨30, 20⟩ := by decide +kernel
  obtain ⟨_, listing, _, hpays⟩ := hcancel 0 demoAlice ⟨30, 20⟩ hoffer
  refine ⟨?_, ?_, ?_⟩
  · rw [hbalance]
    decide +kernel
  · rw [heach]
    decide +kernel
  · rw [hpays (demoCall 7 (.cancelOffer demoAlice 0)) rfl (by decide) (honestReplies_pays _ _ _ _)]
    rfl

/-- Alice raises her offer of 40 to 50 in a batch, or names one token twice. -/
theorem batch_offer_lost :
    let raised := run State.empty [demoInitialize, demoList 7,
      demoCall 3 (.makeOffer demoAlice 0 40 20), demoCall 4 (.makeOffersBatch demoAlice [7] [50] 20)]
    let cancelled := run raised
      [demoCall 5 (.cancelOffer demoAlice 0), demoCall 6 (.cancelOffer demoAlice 0)]
    let twice := run State.empty [demoInitialize, demoList 7,
      demoCall 4 (.makeOffersBatch demoAlice [7, 7] [30, 40] 20)]
    (replay demoLedger raised.transfers demoToken demoHouse = 90 ∧
      offersIn demoToken raised + collectionOffersIn demoToken raised = 50) ∧
    (paidFor 0 demoAlice cancelled.transfers = 90 ∧
      refundedFor 0 demoAlice cancelled.transfers = 50) ∧
    replay demoLedger twice.transfers demoToken demoHouse = 70 ∧
      offersIn demoToken twice + collectionOffersIn demoToken twice = 40 := by
  decide +kernel

end SorobanKit.Marketplace
