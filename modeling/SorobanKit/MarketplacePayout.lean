import SorobanKit.MarketplaceEscrow

set_option autoImplicit false

/-!
# The payout of a sale

The marketplace's own royalties never exceed the price. What the NFT contract asks for is taken
as it is, so a sale moves exactly the price when that amount is between zero and the price, and
only then.
-/
namespace SorobanKit.Marketplace
open CommonMath HostBalances HostInteger HostInvocation HostRuns HostTransfers

/-- The payments from `s` to `t` move the price out of the payer, in shares that are not negative,
    to the seller and the recipients. -/
def PaysOut (token payer seller : Address) (recipients : List Address) (price : ℤ) (s t : State) :
    Prop :=
  ∃ xs, t.transfers = s.transfers ++ xs ∧
    (∀ x ∈ xs, x.token = token ∧ x.source = payer ∧ 0 ≤ x.amount ∧
      (x.target = seller ∨ x.target ∈ recipients)) ∧
    (xs.map Transfer.amount).sum = price

/-- What the NFT contract answers takes no more than the price, and nothing back. -/
def RoyaltyWithin (price : ℤ) : Option (Option RoyaltyInfo) → Prop
  | some (some royalty) => 0 ≤ royalty.amount.1 ∧ royalty.amount.1 ≤ price
  | _ => True

instance (price : ℤ) (answer : Option (Option RoyaltyInfo)) : Decidable (RoyaltyWithin price answer) := by
  rcases answer with _ | _ | royalty
  · exact inferInstanceAs (Decidable True)
  · exact inferInstanceAs (Decidable True)
  · exact inferInstanceAs (Decidable (_ ∧ _))

/-- Who is paid a royalty: whom the NFT contract names, or the marketplace's own recipients. -/
def royaltyRecipients (s : State) : Option (Option RoyaltyInfo) → List Address
  | some (some royalty) => [royalty.recipient]
  | _ => s.royalties.map Prod.fst

structure Priced (s : State) : Prop where
  admin_some : s.admin.isSome
  numbered : Numbered s
  bps_le : ∀ bps, s.royaltyBps = some bps → bps ≤ 10000
  splits_le : ∀ splits, s.royaltySplits = some splits → splitTotal splits ≤ 10000
  collections_pos : ∀ id offer, s.collectionOffers.lookup id = some offer → 0 < offer.amount
  bundles_pos : ∀ id bundle, s.bundles.lookup id = some bundle → 0 < bundle.totalPrice

section Configurations
variable {house : Address} {env : Env} {s t : State}

theorem Priced.royalties_le (hs : Priced s) : splitTotal s.royalties ≤ 10000 := by
  have hsingle : splitTotal (State.royalties.single s) ≤ 10000 := by
    unfold State.royalties.single
    split
    · cases hbps : s.royaltyBps with
      | none => simp [splitTotal]
      | some bps =>
        have hle := hs.bps_le bps hbps
        simpa [splitTotal] using hle
    · simp [splitTotal]
  unfold State.royalties
  split
  · next splits hsplits =>
    split
    · exact hsingle
    · exact hs.splits_le splits hsplits
  · exact hsingle

theorem Priced.bundles_kept (hs : Priced s) (h : PricesKept s t) :
    ∀ id bundle, t.bundles.lookup id = some bundle → 0 < bundle.totalPrice := by
  intro id bundle hbundle
  rcases h id bundle hbundle with hpos | ⟨old, hold, hsame⟩
  · exact hpos
  · rw [← hsame]
    exact hs.bundles_pos id old hold

theorem sweep_same {id : ℕ} {token : Address} {buyers : List Address}
    (h : buyers.foldlM (sweepOne house env id token) s = .ok t) :
    t = { s with offers := t.offers, transfers := t.transfers } := by
  induction buyers generalizing s with
  | nil =>
    rw [List.foldlM_nil, pure_eq_ok] at h
    rw [← h]
  | cons buyer buyers ih =>
    rw [List.foldlM_cons, bind_eq_ok] at h
    obtain ⟨s₁, hone, h⟩ := h
    have hsame := ih h
    unfold sweepOne at hone
    split at hone
    · rw [recordTransfer_ok hone] at hsame
      exact hsame
    · rw [pure_eq_ok] at hone
      rw [← hone] at hsame
      exact hsame

theorem exec_priced {i : Invocation house} (hs : Priced s) (h : exec i s = .ok t) : Priced t := by
  cases exec_move hs.numbered h with
  | initialized hnone =>
    have hsome := hs.admin_some
    rw [hnone] at hsome
    cases hsome
  | configured hsplits h =>
    have hle : ∀ splits, t.royaltySplits = some splits → splitTotal splits ≤ 10000 := by
      intro splits hstored
      rcases hsplits with hsame | hle
      · rw [hsame] at hstored
        exact hs.splits_le splits hstored
      · exact hle splits hstored
    rw [h]
    exact { hs with splits_le := hle }
  | relisted h =>
    have hnumbered := h.numbered
    have hsame := h.same
    rw [hsame]
    rw [hsame] at hnumbered
    exact { hs with numbered := hnumbered }
  | bundled hprices h =>
    have hpos := hs.bundles_kept hprices
    rw [h]
    exact { hs with bundles_pos := hpos }
  | offered buyer id listing amount expirationLedger hauth hlisting hamount h =>
    rw [h]
    exact { hs with }
  | offeredBatch buyer paid tokenIds prices expiration hcall hlength hauth hshares h =>
    rw [h]
    exact { hs with }
  | refunded buyer id listing offer hlisting hoffer h =>
    rw [h]
    exact { hs with }
  | swept id listing buyers u hlisting hfold h =>
    rw [h, sweep_same hfold]
    exact { hs with }
  | collectionOffered buyer nftContract paid amount expiresAt hcall hauth hpaid hamount h =>
    rw [h]
    refine { hs with collections_pos := fun id offer hoffer => ?_ }
    dsimp only at hoffer
    rw [lookup_insert_ite] at hoffer
    split at hoffer
    · cases hoffer
      exact hamount
    · exact hs.collections_pos id offer hoffer
  | collectionCancelled id offer paid hpaid hoffer h =>
    rw [h]
    refine { hs with collections_pos := fun other found hfound => ?_ }
    exact hs.collections_pos other found (of_lookup_erase hfound).2
  | sold hcall hprices hoffers h =>
    have hpos := hs.bundles_kept hprices
    have hamounts : ∀ id offer, t.collectionOffers.lookup id = some offer → 0 < offer.amount :=
      fun id offer hoffer => hs.collections_pos id offer (hoffers id offer hoffer)
    rw [h]
    exact { hs with collections_pos := hamounts, bundles_pos := hpos }

theorem initializeMarketplace_priced {admin token : Address} {royaltyBps : ℕ}
    {royaltyRecipient : Address}
    (h : initializeMarketplace env admin token royaltyBps royaltyRecipient State.empty = .ok s) :
    Priced s := by
  simp only [initializeMarketplace, bind_eq_ok, rejectIf_eq_ok, not_lt, pure_eq_ok] at h
  obtain ⟨_, _, _, hle, _, _, _, _, rfl⟩ := h
  refine ⟨rfl, fun id listing h => ?_, fun bps h => ?_, fun splits h => ?_, fun id offer h => ?_,
    fun id bundle h => ?_⟩
  · simp [State.empty] at h
  · cases h
    exact hle
  · cases h
  · simp [State.empty] at h
  · simp [State.empty] at h

end Configurations

section Shares
variable {price : ℤ} {discountBps : ℕ}

theorem effectiveBps_le (discountBps bps : ℕ) : effectiveBps discountBps bps ≤ bps := by
  unfold effectiveBps saturatingSubU32
  split <;> omega

theorem royaltyShare_bounds (discountBps bps : ℕ) (hprice : 0 < price) :
    0 ≤ royaltyShare price discountBps bps ∧ royaltyShare price discountBps bps * 10000 ≤ price * bps ∧
      (royaltyShare price discountBps bps = 0 ∨ InI128 price) := by
  have hless : price * effectiveBps discountBps bps ≤ price * bps :=
    Int.mul_le_mul_of_nonneg_left (by exact_mod_cast effectiveBps_le discountBps bps) (le_of_lt hprice)
  have hnonneg : 0 ≤ price * effectiveBps discountBps bps :=
    Int.mul_nonneg (le_of_lt hprice) (Int.natCast_nonneg _)
  unfold royaltyShare
  cases hdiv : mulDiv price (effectiveBps discountBps bps) 10000 with
  | error e =>
    change 0 ≤ (0 : ℤ) ∧ (0 : ℤ) * 10000 ≤ _ ∧ _
    exact ⟨le_refl 0, by omega, .inl rfl⟩
  | ok share =>
    obtain ⟨hfits, rfl⟩ := mulDiv_ok_inI128 hdiv
    change 0 ≤ Int.tdiv _ 10000 ∧ Int.tdiv _ 10000 * 10000 ≤ _ ∧ _
    rw [Int.tdiv_eq_ediv_of_nonneg hnonneg]
    refine ⟨by omega, by omega, ?_⟩
    rcases Nat.eq_zero_or_pos (effectiveBps discountBps bps) with hzero | hpos
    · left
      simp [Except.toOption, hzero]
    · right
      have hone : price * 1 ≤ price * effectiveBps discountBps bps :=
        Int.mul_le_mul_of_nonneg_left (by exact_mod_cast hpos) (le_of_lt hprice)
      unfold InI128 at hfits ⊢
      omega

def ownShares (price : ℤ) (discountBps : ℕ) (splits : List (Address × ℕ)) : List (Address × ℤ) :=
  splits.map fun split => (split.1, royaltyShare price discountBps split.2)

theorem ownShares_nonneg (discountBps : ℕ) (hprice : 0 < price) (splits : List (Address × ℕ)) :
    ∀ royalty ∈ ownShares price discountBps splits, 0 ≤ royalty.2 := by
  intro royalty hroyalty
  obtain ⟨split, _, rfl⟩ := List.mem_map.mp hroyalty
  exact (royaltyShare_bounds discountBps split.2 hprice).1

theorem ownShares_sum (discountBps : ℕ) (hprice : 0 < price) (splits : List (Address × ℕ)) :
    ((ownShares price discountBps splits).map Prod.snd).sum * 10000 ≤ price * splitTotal splits ∧
      (((ownShares price discountBps splits).map Prod.snd).sum = 0 ∨ InI128 price) := by
  induction splits with
  | nil => simp [ownShares, splitTotal]
  | cons split splits ih =>
    obtain ⟨hsum, hfits⟩ := ih
    obtain ⟨_, hshare, hfit⟩ := royaltyShare_bounds discountBps split.2 hprice
    have hcons : ((ownShares price discountBps (split :: splits)).map Prod.snd).sum =
        royaltyShare price discountBps split.2 +
          ((ownShares price discountBps splits).map Prod.snd).sum := rfl
    have htotal : price * (splitTotal (split :: splits) : ℕ) =
        price * split.2 + price * splitTotal splits := by
      rw [← mul_add]
      rfl
    rw [hcons, htotal]
    refine ⟨by omega, ?_⟩
    rcases hfit with hfit | hfit
    · rcases hfits with hfits | hfits
      · exact .inl (by omega)
      · exact .inr hfits
    · exact .inr hfit

/-- The marketplace's own shares fit in the price. -/
theorem ownShares_le (discountBps : ℕ) (hprice : 0 < price) {splits : List (Address × ℕ)}
    (hsplits : splitTotal splits ≤ 10000) :
    ((ownShares price discountBps splits).map Prod.snd).sum ≤ price := by
  have hsum := (ownShares_sum discountBps hprice splits).1
  have hcap : price * splitTotal splits ≤ price * 10000 :=
    Int.mul_le_mul_of_nonneg_left (by exact_mod_cast hsplits) (le_of_lt hprice)
  omega

end Shares

section Payment
variable {token payer : Address} {price : ℤ} {royalties : List (Address × ℤ)}

theorem sum_positive_shares (hnonneg : ∀ royalty ∈ royalties, 0 ≤ royalty.2) :
    (((royalties.filter fun royalty => 0 < royalty.2).map fun royalty =>
      (⟨.royalty, token, payer, royalty.1, royalty.2⟩ : Transfer Purpose)).map Transfer.amount).sum =
      (royalties.map Prod.snd).sum := by
  induction royalties with
  | nil => rfl
  | cons royalty royalties ih =>
    obtain ⟨hroyalty, hrest⟩ := List.forall_mem_cons.mp hnonneg
    by_cases hpos : 0 < royalty.2
    · rw [List.filter_cons_of_pos (by simpa using hpos), List.map_cons, List.map_cons, List.sum_cons,
        ih hrest, List.map_cons, List.sum_cons]
    · rw [List.filter_cons_of_neg (by simpa using hpos), ih hrest, List.map_cons, List.sum_cons]
      omega

theorem salePay_exact (token payer seller : Address) (hnonneg : ∀ royalty ∈ royalties, 0 ≤ royalty.2)
    (htotal : royalties.foldl (fun total royalty => saturatingAdd total royalty.2) 0 =
      (royalties.map Prod.snd).sum)
    (hle : (royalties.map Prod.snd).sum ≤ price) :
    (∀ x ∈ salePay token payer seller price royalties, x.token = token ∧ x.source = payer ∧
      0 ≤ x.amount ∧ (x.target = seller ∨ x.target ∈ royalties.map Prod.fst)) ∧
    ((salePay token payer seller price royalties).map Transfer.amount).sum = price := by
  unfold salePay
  rw [htotal]
  refine ⟨List.forall_mem_cons.mpr ⟨⟨rfl, rfl, by dsimp only; omega, .inl rfl⟩, fun x hx => ?_⟩, ?_⟩
  · obtain ⟨royalty, hroyalty, rfl⟩ := List.mem_map.mp hx
    have hmem := List.mem_of_mem_filter hroyalty
    exact ⟨rfl, rfl, hnonneg royalty hmem, .inr (List.mem_map_of_mem hmem)⟩
  · rw [List.map_cons, List.sum_cons, sum_positive_shares hnonneg]
    dsimp only
    omega

end Payment

section Sales
variable {house : Address} {env : Env} {s r t : State} {token payer seller nft : Address}
  {tokenId discountBps : ℕ} {price : ℤ} {royalties : List (Address × ℤ)}

theorem resolveRoyalty_ok (h : resolveRoyalty env nft tokenId price discountBps s = .ok royalties) :
    (∃ royalty, env.royaltyInfo nft tokenId price = some (some royalty) ∧
      royalties = [(royalty.recipient, royalty.amount.1)]) ∨
    (env.royaltyInfo nft tokenId price = some none ∧
      royalties = ownShares price discountBps s.royalties) := by
  simp only [resolveRoyalty, bind_eq_ok, unwrap_eq_ok] at h
  obtain ⟨answer, hanswer, h⟩ := h
  cases answer with
  | some royalty =>
    rw [pure_eq_ok] at h
    exact .inl ⟨royalty, hanswer, h.symm⟩
  | none =>
    rw [pure_eq_ok] at h
    exact .inr ⟨hanswer, h.symm⟩

theorem nftRoyalty_exact {recipient : Address} {amount : I128}
    (ht : t.transfers = s.transfers ++ salePay token payer seller price [(recipient, amount.1)]) :
    PaysOut token payer seller [recipient] price s t ↔ 0 ≤ amount.1 ∧ amount.1 ≤ price := by
  have htotal : [(recipient, amount.1)].foldl (fun total royalty => saturatingAdd total royalty.2) 0 =
      amount.1 := by
    change saturate (0 + amount.1) = amount.1
    rw [zero_add, saturate_of_inI128 amount.2]
  constructor
  · rintro ⟨xs, hxs, hshares, hsum⟩
    rw [ht] at hxs
    obtain rfl := List.append_cancel_left hxs
    unfold salePay at hshares hsum
    rw [htotal] at hshares hsum
    have hseller := (hshares _ List.mem_cons_self).2.2.1
    dsimp only at hseller
    refine ⟨?_, by omega⟩
    -- a negative royalty is not paid, and yet the seller gets it
    by_contra hneg
    rw [List.filter_cons_of_neg (by simp only [decide_eq_true_eq]; omega), List.filter_nil] at hsum
    simp only [List.map_nil, List.map_cons, List.sum_cons, List.sum_nil] at hsum
    omega
  · rintro ⟨hnonneg, hle⟩
    have hone : ([(recipient, amount.1)].map Prod.snd).sum = amount.1 := by simp
    obtain ⟨hshares, hsum⟩ := salePay_exact token payer seller (by simpa using hnonneg)
      (htotal.trans hone.symm) (le_of_eq_of_le hone hle)
    exact ⟨_, ht, hshares, hsum⟩

theorem ownRoyalties_exact {splits : List (Address × ℕ)} (hprice : 0 < price)
    (hsplits : splitTotal splits ≤ 10000)
    (ht : t.transfers = s.transfers ++
      salePay token payer seller price (ownShares price discountBps splits)) :
    PaysOut token payer seller (splits.map Prod.fst) price s t := by
  have hle := ownShares_le discountBps hprice hsplits
  have hnonneg := ownShares_nonneg discountBps hprice splits
  have hfits : 0 + ((ownShares price discountBps splits).map Prod.snd).sum ≤
      170141183460469231731687303715884105727 := by
    rcases (ownShares_sum discountBps hprice splits).2 with hzero | hfits
    · omega
    · unfold InI128 at hfits
      omega
  have htotal := foldl_saturatingAdd Prod.snd _ (le_refl 0) hnonneg hfits
  rw [zero_add] at htotal
  obtain ⟨hshares, hsum⟩ := salePay_exact token payer seller hnonneg htotal hle
  have hnames : (ownShares price discountBps splits).map Prod.fst = splits.map Prod.fst := by
    unfold ownShares
    rw [List.map_map]
    rfl
  rw [hnames] at hshares
  exact ⟨_, ht, hshares, hsum⟩

theorem sale_exact (hprice : 0 < price) (hroyalties : splitTotal r.royalties ≤ 10000)
    (h : resolveRoyalty env nft tokenId price discountBps r = .ok royalties)
    (ht : t.transfers = s.transfers ++ salePay token payer seller price royalties) :
    PaysOut token payer seller (royaltyRecipients r (env.royaltyInfo nft tokenId price)) price s t ↔
      RoyaltyWithin price (env.royaltyInfo nft tokenId price) := by
  rcases resolveRoyalty_ok h with ⟨royalty, hanswer, rfl⟩ | ⟨hanswer, rfl⟩
  · rw [hanswer]
    exact nftRoyalty_exact ht
  · rw [hanswer]
    exact ⟨fun _ => trivial, fun _ => ownRoyalties_exact hprice hroyalties ht⟩

theorem acceptCollectionOffer_ok {offerId : ℕ}
    (h : acceptCollectionOffer house env seller offerId tokenId s = .ok t) :
    ∃ token offer royalties, s.paymentToken = some token ∧
      s.collectionOffers.lookup offerId = some offer ∧
      resolveRoyalty env offer.nftContract tokenId offer.amount (feeDiscountBps env seller s)
        { s with collectionOffers := s.collectionOffers.erase offerId } = .ok royalties ∧
      t = { s with
        collectionOffers := s.collectionOffers.erase offerId,
        transfers := s.transfers ++ salePay token house seller offer.amount royalties } := by
  simp only [acceptCollectionOffer, bind_eq_ok, okOr_eq_ok] at h
  obtain ⟨token, htoken, _, _, offer, hoffer, _, _, _, _, hsettle⟩ := h
  obtain ⟨royalties, hroyalties, ht⟩ := settleSale_ok hsettle
  exact ⟨token, offer, royalties, htoken, hoffer, hroyalties, ht⟩

theorem buyBundle_ok {buyer : Address} {bundleId : ℕ}
    (h : buyBundle house env buyer bundleId s = .ok t) :
    ∃ bundle royalties, s.bundles.lookup bundleId = some bundle ∧
      resolveRoyalty env bundle.nftContract (bundle.tokenIds.headD 0) bundle.totalPrice 0
        { s with
          bundles := s.bundles.insert bundleId { bundle with active := false }, locked := true } =
        .ok royalties ∧
      t.transfers = s.transfers ++
        salePay bundle.paymentToken buyer bundle.seller bundle.totalPrice royalties := by
  simp only [buyBundle, acquireLock, bind_eq_ok, okOr_eq_ok, pure_eq_ok] at h
  obtain ⟨_, _, _, _, bundle, hbundle, _, _, _, _, _, ⟨_, _, rfl⟩, royalties, hroyalties, s₁, hpay, _,
    _, rfl⟩ := h
  refine ⟨bundle, royalties, hbundle, hroyalties, ?_⟩
  rw [payShares_ok hpay]
  rfl

end Sales

/-- What the contract holds of a token beyond the stored offers. -/
def surplus (house T : Address) (s : State) : ℤ :=
  gain T house s.transfers - (offersIn T s + collectionOffersIn T s)

theorem surplus_accepted {house token seller : Address} {recipients : List Address} {s t : State}
    {id : ℕ} {offer : CollectionOffer} {xs : List (Transfer Purpose)}
    (htoken : s.paymentToken = some token) (hoffer : s.collectionOffers.lookup id = some offer)
    (ht : t = { s with
      collectionOffers := s.collectionOffers.erase id, transfers := s.transfers ++ xs })
    (hpays : PaysOut token house seller recipients offer.amount s t) (T : Address) :
    surplus house T s ≤ surplus house T t := by
  obtain ⟨ys, hys, hshares, hsum⟩ := hpays
  have hgain : -(if token = T then (ys.map Transfer.amount).sum else 0) ≤ gain T house ys :=
    gain_of_outgoing fun x hx => ⟨(hshares x hx).1, (hshares x hx).2.1, (hshares x hx).2.2.1⟩
  have hlog : gain T house t.transfers = gain T house s.transfers + gain T house ys := by
    rw [hys, gain_append]
  have hrest : collectionOffersIn T t = collectionOffersIn T s - if token = T then offer.amount else 0 := by
    rw [ht]
    simp only [collectionOffersIn, htoken, Option.some.injEq, sumBy_erase, part_of_lookup hoffer]
    split <;> omega
  have hsame : offersIn T t = offersIn T s := by
    rw [ht]
    rfl
  rw [hsum] at hgain
  unfold surplus
  omega

/-- In every run, whatever the royalties, the stakers and the answers: a payment of a sale that
    returns moves exactly the price, in shares that are not negative, if and only if the royalty the
    NFT contract asks for is within the price; the offers that stay are then as covered as before. -/
theorem sale_pays_price (house admin token : Address) (royaltyBps : ℕ) (royaltyRecipient : Address)
    (i₀ : Invocation house) (s : State)
    (hcall : i₀.call = .initializeMarketplace admin token royaltyBps royaltyRecipient)
    (hinit : exec i₀ State.empty = .ok s) (is : List (Invocation house)) :
    (∀ (env : Env) (paymentToken payer seller recipient nft : Address) (tokenId : ℕ) (price : ℤ)
      (t : State), 0 < price →
      settleSale house env paymentToken payer seller recipient nft tokenId price (run s is) = .ok t →
      (PaysOut paymentToken payer seller
          (royaltyRecipients (run s is) (env.royaltyInfo nft tokenId price)) price (run s is) t ↔
        RoyaltyWithin price (env.royaltyInfo nft tokenId price))) ∧
    (∀ (i : Invocation house) (seller : Address) (offerId tokenId : ℕ) (t : State),
      i.call = .acceptCollectionOffer seller offerId tokenId → exec i (run s is) = .ok t →
      ∃ paymentToken offer, (run s is).paymentToken = some paymentToken ∧
        (run s is).collectionOffers.lookup offerId = some offer ∧
        (PaysOut paymentToken house seller
            (royaltyRecipients (run s is) (i.royaltyInfo offer.nftContract tokenId offer.amount))
            offer.amount (run s is) t ↔
          RoyaltyWithin offer.amount (i.royaltyInfo offer.nftContract tokenId offer.amount)) ∧
        (RoyaltyWithin offer.amount (i.royaltyInfo offer.nftContract tokenId offer.amount) →
          ∀ T, surplus house T (run s is) ≤ surplus house T t)) ∧
    ∀ (i : Invocation house) (buyer : Address) (bundleId : ℕ) (t : State),
      i.call = .buyBundle buyer bundleId → exec i (run s is) = .ok t →
      ∃ bundle, (run s is).bundles.lookup bundleId = some bundle ∧
        (PaysOut bundle.paymentToken buyer bundle.seller
            (royaltyRecipients (run s is)
              (i.royaltyInfo bundle.nftContract (bundle.tokenIds.headD 0) bundle.totalPrice))
            bundle.totalPrice (run s is) t ↔
          RoyaltyWithin bundle.totalPrice
            (i.royaltyInfo bundle.nftContract (bundle.tokenIds.headD 0) bundle.totalPrice)) := by
  have hs : Priced s := by
    unfold exec at hinit
    rw [hcall] at hinit
    exact initializeMarketplace_priced hinit
  have hrun : Priced (run s is) := run_invariant (fun s i t hs hok => exec_priced hs hok) hs is
  refine ⟨fun env paymentToken payer seller recipient nft tokenId price t hprice hok => ?_,
    fun i seller offerId tokenId t hcall hok => ?_, fun i buyer bundleId t hcall hok => ?_⟩
  · obtain ⟨royalties, hroyalties, rfl⟩ := settleSale_ok hok
    exact sale_exact hprice hrun.royalties_le hroyalties rfl
  · unfold exec at hok
    rw [hcall] at hok
    obtain ⟨paymentToken, offer, royalties, htoken, hoffer, hroyalties, ht⟩ :=
      acceptCollectionOffer_ok hok
    have hpays := sale_exact (s := run s is) (t := t) (hrun.collections_pos offerId offer hoffer)
      hrun.royalties_le hroyalties (by rw [ht])
    exact ⟨paymentToken, offer, htoken, hoffer, hpays,
      fun hwithin => surplus_accepted htoken hoffer ht (hpays.mpr hwithin)⟩
  · unfold exec at hok
    rw [hcall] at hok
    obtain ⟨bundle, royalties, hbundle, hroyalties, ht⟩ := buyBundle_ok hok
    exact ⟨bundle, hbundle,
      sale_exact (hrun.bundles_pos bundleId bundle hbundle) hrun.royalties_le hroyalties ht⟩

/-- Alice and Bob make offers on collections, and the seller takes Bob's. -/
def demoCollections : List (Invocation demoHouse) :=
  [demoCall 2 (.makeCollectionOffer demoAlice demoNft 700 20),
    demoCall 2 (.makeCollectionOffer demoBob demoNft 70 20)]

def demoAccept : Invocation demoHouse := demoCall 3 (.acceptCollectionOffer demoSeller 1 7)

theorem sale_pays_price_demo :
    PaysOut demoToken demoHouse demoSeller [demoAdmin] 70
        (run (run State.empty [demoInitialize]) demoCollections)
        (run (run State.empty [demoInitialize]) (demoCollections ++ [demoAccept])) ∧
      replay demoLedger (run (run State.empty [demoInitialize])
        (demoCollections ++ [demoAccept])).transfers demoToken demoHouse = 700 := by
  obtain ⟨_, haccept, _⟩ := sale_pays_price demoHouse demoAdmin demoToken 500 demoAdmin demoInitialize
    (run State.empty [demoInitialize]) rfl rfl demoCollections
  obtain ⟨paymentToken, offer, htoken, hoffer, hpays, _⟩ := haccept demoAccept demoSeller 1 7
    (run (run State.empty [demoInitialize]) (demoCollections ++ [demoAccept])) rfl rfl
  cases htoken
  cases hoffer
  exact ⟨hpays.mpr trivial, by decide +kernel⟩

/-- The NFT contract of Bob's offer answers a negative royalty: the offer of 1 is accepted with the
    700 of Alice. -/
theorem escrow_spent :
    let offered := run State.empty [demoInitialize,
      demoCall 2 (.makeCollectionOffer demoAlice demoNft 700 20),
      demoCall 2 (.makeCollectionOffer demoBob demoNft 1 20)]
    let accepted := run offered [{ demoAccept with
      royaltyInfo := fun _ _ _ => some (some ⟨demoBob, -700, by decide⟩) }]
    replay demoLedger offered.transfers demoToken demoHouse = 701 ∧
      offered.collectionOffers.lookup 1 = some ⟨demoBob, demoNft, 1, 20⟩ ∧
      replay demoLedger accepted.transfers demoToken demoHouse = 0 ∧
      accepted.transfers = offered.transfers ++ [⟨.sale, demoToken, demoHouse, demoSeller, 701⟩] ∧
      collectionOffersIn demoToken accepted = 700 := by
  decide +kernel

end SorobanKit.Marketplace
