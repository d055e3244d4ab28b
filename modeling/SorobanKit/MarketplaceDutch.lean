import SorobanKit.AuctionDutch
import SorobanKit.MarketplaceContract

set_option autoImplicit false

/-!
# The price of a Dutch listing

The marketplace interpolates with its own function, where the auction contract fails when the
product under the division overflows and the marketplace takes the whole spread off. Elsewhere
both are at the line from the start price to the end price, rounded up.
-/
namespace SorobanKit.Marketplace
open CommonMath HostInteger HostInvocation

def dutchPrice (startPrice endPrice : ℤ) (startLedger endLedger currentLedger : ℕ) : ℤ :=
  let effective := if endLedger < currentLedger then endLedger else currentLedger
  let elapsed := saturatingSubU32 effective startLedger
  let duration := saturatingSubU32 endLedger startLedger
  if duration = 0 then endPrice
  else
    let decay := saturatingSub startPrice endPrice
    let reduction := (mulDiv decay elapsed duration).toOption.getD decay
    let price := saturatingSub startPrice reduction
    if price < endPrice then endPrice else price

/-- The schedules that `list_dutch` lets through, with prices of type `i128`. -/
structure DutchSchedule where
  startPrice : ℤ
  endPrice : ℤ
  startLedger : ℕ
  endLedger : ℕ
  end_pos : 0 < endPrice
  end_le : endPrice ≤ startPrice
  start_lt : startLedger < endLedger
  start_fits : InI128 startPrice

theorem listDutch_schedule {env : Env} {seller nft token : Address} {tokenId : ℕ}
    {startPrice endPrice : ℤ} {startLedger endLedger : ℕ} {s t : State}
    (hfits : InI128 startPrice)
    (h : listDutch env seller nft tokenId startPrice endPrice startLedger endLedger token s = .ok t) :
    ∃ d : DutchSchedule, ∃ listing, t.listings.lookup (s.nextListingId.getD 0) = some listing ∧
      listing.listingType = .dutch d.startPrice d.endPrice d.startLedger d.endLedger := by
  simp only [listDutch, addListing, bind_eq_ok, rejectIf_eq_ok, pure_eq_ok] at h
  obtain ⟨_, _, _, _, _, hprices, _, hledgers, _, _, _, _, rfl⟩ := h
  exact ⟨⟨startPrice, endPrice, startLedger, endLedger, by omega, by omega, by omega, hfits⟩, _,
    Finmap.lookup_insert _, rfl⟩

namespace DutchSchedule
variable (d : DutchSchedule) (ledger : ℕ)

/-- The same schedule for the auction contract. -/
def config : Auction.DutchConfig :=
  ⟨d.startPrice, d.endPrice, d.startLedger, d.endLedger - d.startLedger⟩

def price : ℤ := dutchPrice d.startPrice d.endPrice d.startLedger d.endLedger ledger

/-- What the line has taken off until it ends. -/
def fallen : ℤ := Auction.decay d.config (min ledger d.endLedger)

/-- The line from the start price to the end price, rounded up and held between them. -/
def clampedLine : ℤ := max d.endPrice (min d.startPrice ⌈Auction.line d.config ledger⌉)

variable {d ledger}

theorem product_nonneg : 0 ≤ Auction.decayProduct d.config ledger := by
  have hle := d.end_le
  exact Int.mul_nonneg (by change 0 ≤ d.startPrice - d.endPrice; omega) (Int.natCast_nonneg _)

theorem product_le {k : ℕ} (h : ledger - d.startLedger ≤ k) :
    Auction.decayProduct d.config ledger ≤ (d.startPrice - d.endPrice) * k := by
  have hle := d.end_le
  apply Int.mul_le_mul_of_nonneg_left _ (by change 0 ≤ d.startPrice - d.endPrice; omega)
  change ((ledger - d.startLedger : ℕ) : ℤ) ≤ k
  omega

theorem fallen_nonneg : 0 ≤ d.fallen ledger :=
  Int.ediv_nonneg product_nonneg (Int.natCast_nonneg _)

theorem fallen_le : d.fallen ledger ≤ d.startPrice - d.endPrice := by
  have hlt := d.start_lt
  apply Int.ediv_le_of_le_mul
  · change 0 < ((d.endLedger - d.startLedger : ℕ) : ℤ)
    omega
  · apply product_le
    change min ledger d.endLedger - d.startLedger ≤ d.endLedger - d.startLedger
    omega

theorem fallen_lt (hspread : d.endPrice < d.startPrice) (hend : ledger < d.endLedger) :
    d.fallen ledger < d.startPrice - d.endPrice := by
  have hlt := d.start_lt
  have hpos : 0 < ((d.endLedger - d.startLedger : ℕ) : ℤ) := by omega
  apply Int.ediv_lt_of_lt_mul hpos
  have hless : ((min ledger d.endLedger - d.startLedger : ℕ) : ℤ) <
      (d.endLedger - d.startLedger : ℕ) := by omega
  exact Int.mul_lt_mul_of_pos_left hless (by change 0 < d.startPrice - d.endPrice; omega)

theorem fallen_of_end (hend : d.endLedger ≤ ledger) :
    d.fallen ledger = d.startPrice - d.endPrice := by
  have hlt := d.start_lt
  unfold fallen Auction.decay Auction.decayProduct
  rw [min_eq_right hend]
  exact Int.mul_ediv_cancel _ (by change ((d.endLedger - d.startLedger : ℕ) : ℤ) ≠ 0; omega)

theorem price_eq : d.price ledger =
    if InI128 (Auction.decayProduct d.config (min ledger d.endLedger)) then
      d.startPrice - d.fallen ledger
    else d.endPrice := by
  have hpos := d.end_pos
  have hle := d.end_le
  have hlt := d.start_lt
  have hfits := d.start_fits
  have hnonneg : 0 ≤ d.fallen ledger := fallen_nonneg
  have hfallen : d.fallen ledger ≤ d.startPrice - d.endPrice := fallen_le
  have heffective : (if d.endLedger < ledger then d.endLedger else ledger) = min ledger d.endLedger := by
    split <;> omega
  have hduration : saturatingSubU32 d.endLedger d.startLedger ≠ 0 := by
    unfold saturatingSubU32
    omega
  unfold InI128 at hfits
  have hsub : ∀ x, 0 ≤ x → x ≤ d.startPrice - d.endPrice →
      saturatingSub d.startPrice x = d.startPrice - x := by
    intro x hx hx'
    exact saturate_of_inI128 ⟨by omega, by omega⟩
  have hspread : saturatingSub d.startPrice d.endPrice = d.startPrice - d.endPrice :=
    saturate_of_inI128 ⟨by omega, by omega⟩
  have hdiv : ∀ q, mulDiv (d.startPrice - d.endPrice)
      (saturatingSubU32 (min ledger d.endLedger) d.startLedger)
      (saturatingSubU32 d.endLedger d.startLedger) = .ok q ↔
        InI128 (Auction.decayProduct d.config (min ledger d.endLedger)) ∧ q = d.fallen ledger := by
    intro q
    exact mulDiv_eq_ok_iff product_nonneg (by omega)
  unfold price dutchPrice
  dsimp only
  rw [heffective, if_neg hduration, hspread]
  by_cases hproduct : InI128 (Auction.decayProduct d.config (min ledger d.endLedger))
  · rw [if_pos hproduct, (hdiv _).mpr ⟨hproduct, rfl⟩]
    have hprice := hsub _ hnonneg hfallen
    change (if saturatingSub d.startPrice (d.fallen ledger) < d.endPrice then d.endPrice
      else saturatingSub d.startPrice (d.fallen ledger)) = _
    rw [hprice, if_neg (by omega)]
  · rw [if_neg hproduct]
    cases hresult : mulDiv (d.startPrice - d.endPrice)
        (saturatingSubU32 (min ledger d.endLedger) d.startLedger)
        (saturatingSubU32 d.endLedger d.startLedger) with
    | ok q => exact absurd ((hdiv q).mp hresult).1 hproduct
    | error e =>
      have hprice := hsub (d.startPrice - d.endPrice) (by omega) (le_refl _)
      change (if saturatingSub d.startPrice (d.startPrice - d.endPrice) < d.endPrice then d.endPrice
        else saturatingSub d.startPrice (d.startPrice - d.endPrice)) = _
      rw [hprice, if_neg (by omega)]
      omega

theorem clampedLine_eq : d.clampedLine ledger = d.startPrice - d.fallen ledger := by
  have hle := d.end_le
  have hlt := d.start_lt
  have hnonneg : 0 ≤ d.fallen ledger := fallen_nonneg
  have hfallen : d.fallen ledger ≤ d.startPrice - d.endPrice := fallen_le
  unfold clampedLine
  by_cases hstart : d.startLedger ≤ ledger
  · have hceil : ⌈Auction.line d.config ledger⌉ = d.startPrice - Auction.decay d.config ledger :=
      Auction.ceil_line hstart
    rw [hceil]
    by_cases hend : ledger ≤ d.endLedger
    · unfold fallen at hnonneg hfallen ⊢
      rw [min_eq_left hend] at hnonneg hfallen ⊢
      omega
    · -- past its end the line goes on below the end price
      have hover : d.startPrice - d.endPrice ≤ Auction.decay d.config ledger := by
        apply Int.le_ediv_of_mul_le
        · change 0 < ((d.endLedger - d.startLedger : ℕ) : ℤ)
          omega
        · apply Int.mul_le_mul_of_nonneg_left _ (by omega)
          change ((d.endLedger - d.startLedger : ℕ) : ℤ) ≤ (ledger - d.startLedger : ℕ)
          omega
      rw [fallen_of_end (by omega)]
      omega
  · have hzero : d.fallen ledger = 0 := Auction.decay_of_start (by change _ ≤ d.startLedger; omega)
    have habove : (d.startPrice : ℚ) ≤ Auction.line d.config ledger := by
      have hspread : (0 : ℚ) ≤ d.startPrice - d.endPrice := by
        exact_mod_cast Int.sub_nonneg_of_le hle
      have helapsed : (ledger : ℚ) - d.startLedger ≤ 0 := by
        rw [sub_nonpos]
        exact_mod_cast (not_le.mp hstart).le
      have hterm : ((d.startPrice : ℚ) - d.endPrice) * (ledger - d.startLedger) /
          (d.endLedger - d.startLedger : ℕ) ≤ 0 :=
        div_nonpos_of_nonpos_of_nonneg (mul_nonpos_of_nonneg_of_nonpos hspread helapsed)
          (Nat.cast_nonneg _)
      change (d.startPrice : ℚ) ≤ d.startPrice -
        ((d.startPrice : ℚ) - d.endPrice) * (ledger - d.startLedger) /
          (d.endLedger - d.startLedger : ℕ)
      linarith
    have hceil : d.startPrice ≤ ⌈Auction.line d.config ledger⌉ :=
      Int.cast_le.mp (habove.trans (Int.le_ceil _))
    omega

theorem priceAt_clampedLine {price : ℤ} (h : Auction.priceAt d.config ledger = .ok price) :
    price = d.clampedLine ledger := by
  have hlt := d.start_lt
  have hle := d.end_le
  have hpos := d.end_pos
  have hnonneg : 0 ≤ d.fallen ledger := fallen_nonneg
  have hfallen : d.fallen ledger ≤ d.startPrice - d.endPrice := fallen_le
  rw [clampedLine_eq]
  unfold Auction.priceAt saturatingSubU32 at h
  by_cases hover : d.config.durationLedgers ≤ ledger - d.config.startLedger
  · rw [if_pos hover, pure_eq_ok] at h
    change d.endLedger - d.startLedger ≤ ledger - d.startLedger at hover
    change d.endPrice = price at h
    rw [fallen_of_end (by omega)]
    omega
  · rw [if_neg hover] at h
    change ¬ d.endLedger - d.startLedger ≤ ledger - d.startLedger at hover
    have hmin : min ledger d.endLedger = ledger := by omega
    cases hdiv : mulDiv (d.startPrice - d.endPrice) (ledger - d.startLedger : ℕ)
        (d.endLedger - d.startLedger : ℕ) with
    | error e => simp [config, hdiv, bind_eq_ok] at h
    | ok q =>
      have hq : q = d.fallen ledger := by
        unfold fallen
        rw [hmin]
        exact ((mulDiv_eq_ok_iff product_nonneg (by omega)).mp hdiv).2
      simp only [config, bind_eq_ok, okOr_eq_ok, checkedSub_eq_some] at h
      obtain ⟨_, ⟨_, rfl⟩, h⟩ := h
      rw [hdiv] at h
      change (okOr (checkedSub d.startPrice q) Auction.AuctionError.overflow >>= fun price =>
        pure (max price d.endPrice)) = _ at h
      simp only [bind_eq_ok, okOr_eq_ok, checkedSub_eq_some, pure_eq_ok] at h
      obtain ⟨_, ⟨_, rfl⟩, rfl⟩ := h
      rw [hq, max_eq_left (by omega)]

/-- The price is at the line once the schedule has ended, and before that as long as the product
    fits; where it does not fit, the price is below the line. -/
theorem price_eq_clampedLine : d.price ledger = d.clampedLine ledger ↔
    d.endLedger ≤ ledger ∨ InI128 (Auction.decayProduct d.config ledger) := by
  have hlt := d.start_lt
  have hle := d.end_le
  rw [price_eq, clampedLine_eq]
  by_cases hend : d.endLedger ≤ ledger
  · have hfallen : d.fallen ledger = d.startPrice - d.endPrice := fallen_of_end hend
    have hsame : d.startPrice - d.fallen ledger = d.endPrice := by omega
    rw [hsame, ite_self]
    exact ⟨fun _ => .inl hend, fun _ => rfl⟩
  · have hmin : min ledger d.endLedger = ledger := by omega
    rw [hmin]
    by_cases hproduct : InI128 (Auction.decayProduct d.config ledger)
    · rw [if_pos hproduct]
      exact ⟨fun _ => .inr hproduct, fun _ => rfl⟩
    · have hspread : d.endPrice < d.startPrice := by
        by_contra hflat
        have hzero : d.startPrice - d.endPrice = 0 := by omega
        have hnone : Auction.decayProduct d.config ledger = 0 := by
          change (d.startPrice - d.endPrice) * _ = 0
          rw [hzero, zero_mul]
        rw [hnone] at hproduct
        exact hproduct (by decide)
      have hfallen : d.fallen ledger < d.startPrice - d.endPrice := fallen_lt hspread (by omega)
      rw [if_neg hproduct]
      constructor
      · intro hsame
        omega
      · rintro (hover | hfits)
        · exact absurd hover hend
        · exact absurd hfits hproduct

end DutchSchedule

/-- For every schedule the marketplace lists and every ledger: the price is the line rounded up and
    held between the end price and the start price, and with it the price of the auction contract
    where there is one, if and only if the schedule has ended or the spread times the elapsed ledgers
    fits an `i128`. -/
theorem dutchPrice_line_iff (d : DutchSchedule) (ledger : ℕ) :
    (dutchPrice d.startPrice d.endPrice d.startLedger d.endLedger ledger =
        max d.endPrice (min d.startPrice ⌈(d.startPrice : ℚ) - (d.startPrice - d.endPrice) *
          (ledger - d.startLedger) / (d.endLedger - d.startLedger : ℕ)⌉) ∧
      ∀ price, Auction.priceAt ⟨d.startPrice, d.endPrice, d.startLedger, d.endLedger - d.startLedger⟩
        ledger = .ok price →
          dutchPrice d.startPrice d.endPrice d.startLedger d.endLedger ledger = price) ↔
      d.endLedger ≤ ledger ∨ InI128 ((d.startPrice - d.endPrice) * (ledger - d.startLedger : ℕ)) := by
  have hline : d.price ledger = d.clampedLine ledger ↔ _ := DutchSchedule.price_eq_clampedLine
  constructor
  · intro hsame
    exact hline.mp hsame.1
  · intro hcond
    have hsame := hline.mpr hcond
    refine ⟨hsame, fun price hprice => ?_⟩
    exact hsame.trans (DutchSchedule.priceAt_clampedLine hprice).symm

/-- From the largest price down to one in three ledgers: at the second the price has fallen to the
    end, far below the line. -/
theorem dutchPrice_below_line :
    let price : ℤ := 170141183460469231731687303715884105727
    (∃ t, listDutch (demoCall 5 (.invalidateListing 0)).toEnv demoSeller demoNft 7 price 1 10 13
      demoToken (run State.empty [demoInitialize]) = .ok t) ∧
      dutchPrice price 1 10 13 12 = 1 ∧
      max 1 (min price ⌈(price : ℚ) - (price - (1 : ℤ)) * ((12 : ℕ) - (10 : ℕ)) /
        (13 - 10 : ℕ)⌉) = 56713727820156410577229101238628035243 := by
  have hline : (170141183460469231731687303715884105727 : ℚ) -
      (170141183460469231731687303715884105727 - 1) * (12 - 10) / 3 =
        (56713727820156410577229101238628035243 : ℤ) := by norm_num
  refine ⟨⟨_, rfl⟩, by decide, ?_⟩
  push_cast
  rw [hline, Int.ceil_intCast]
  decide

end SorobanKit.Marketplace
