import Mathlib.Data.Rat.Floor
import Mathlib.Tactic.FieldSimp
import Mathlib.Tactic.Positivity
import Mathlib.Tactic.Ring
import SorobanKit.AuctionContract

set_option autoImplicit false

/-!
# The price of a Dutch auction

The price falls along a line from the start price to the floor. The decay is rounded down, so
the price is rounded up; the product under the division is an `i128`, and for a large spread it
does not fit.
-/
namespace SorobanKit.Auction
open CommonMath HostBalances HostInteger HostInvocation HostTransfers

/-- The schedules that `start_dutch` lets through, with prices of type `i128`. -/
structure DutchConfig.Accepted (cfg : DutchConfig) : Prop where
  floor_nonneg : 0 ≤ cfg.floorPrice
  floor_lt : cfg.floorPrice < cfg.startPrice
  duration_pos : 0 < cfg.durationLedgers
  end_fits : cfg.startLedger + cfg.durationLedgers ≤ u32Max
  startPrice_fits : InI128 cfg.startPrice

theorem escrowNft_dutchConfig {house seller : Address} {env : Env} {nftContract : Option Address}
    {tokenId : Option ℕ} {s t : State}
    (h : escrowNft house env seller nftContract tokenId s = .ok t) :
    t.dutchConfig = s.dutchConfig := by
  unfold escrowNft at h
  split at h
  · simp only [bind_eq_ok, pure_eq_ok] at h
    obtain ⟨-, -, rfl⟩ := h
    rfl
  · cases h
    rfl

theorem startDutch_accepted {house : Address} {env : Env} {seller token : Address}
    {startPrice floorPrice : ℤ} {startLedger durationLedgers : ℕ} {nftContract : Option Address}
    {tokenId : Option ℕ} {s t : State} (hfits : InI128 startPrice)
    (h : startDutch house env seller token startPrice floorPrice startLedger durationLedgers
      nftContract tokenId s = .ok t) :
    ∃ cfg, t.dutchConfig = some cfg ∧ cfg.Accepted ∧
      cfg = ⟨startPrice, floorPrice, startLedger, durationLedgers⟩ := by
  simp only [startDutch, bind_eq_ok, rejectIf_eq_ok, okOr_eq_ok, checkedAddU32_eq_some] at h
  obtain ⟨-, -, -, hprices, -, hledgers, endLedger, ⟨hend, -⟩, -, -, -, -, hescrow⟩ := h
  refine ⟨_, escrowNft_dutchConfig hescrow, ⟨?_, ?_, ?_, hend, hfits⟩, rfl⟩
  · change 0 ≤ floorPrice
    omega
  · change floorPrice < startPrice
    omega
  · change 0 < durationLedgers
    omega

/-- The spread times the elapsed ledgers, as it stands under the division. -/
def decayProduct (cfg : DutchConfig) (ledger : ℕ) : ℤ :=
  (cfg.startPrice - cfg.floorPrice) * (ledger - cfg.startLedger : ℕ)

section Price
variable {cfg : DutchConfig} {ledger later : ℕ} {price price' : ℤ}

theorem decayProduct_nonneg (h : cfg.Accepted) : 0 ≤ decayProduct cfg ledger :=
  Int.mul_nonneg (by have := h.floor_lt; omega) (Int.natCast_nonneg _)

theorem decayProduct_mono (h : cfg.Accepted) (hle : ledger ≤ later) :
    decayProduct cfg ledger ≤ decayProduct cfg later := by
  have hlt := h.floor_lt
  apply Int.mul_le_mul_of_nonneg_left _ (by omega)
  omega

/-- What the auction has taken off the start price. -/
def decay (cfg : DutchConfig) (ledger : ℕ) : ℤ := decayProduct cfg ledger / cfg.durationLedgers

theorem decay_nonneg (h : cfg.Accepted) : 0 ≤ decay cfg ledger :=
  Int.ediv_nonneg (decayProduct_nonneg h) (Int.natCast_nonneg _)

theorem decay_mono (h : cfg.Accepted) (hle : ledger ≤ later) : decay cfg ledger ≤ decay cfg later := by
  have hpos := h.duration_pos
  exact Int.ediv_le_ediv (by omega) (decayProduct_mono h hle)

theorem decay_of_start (hle : ledger ≤ cfg.startLedger) : decay cfg ledger = 0 := by
  have helapsed : ledger - cfg.startLedger = 0 := by omega
  simp [decay, decayProduct, helapsed]

theorem decay_le (h : cfg.Accepted) (hlt : ledger < cfg.startLedger + cfg.durationLedgers) :
    decay cfg ledger ≤ cfg.startPrice - cfg.floorPrice := by
  have hpos := h.duration_pos
  have hspread := h.floor_lt
  apply Int.ediv_le_of_le_mul (by omega)
  apply Int.mul_le_mul_of_nonneg_left _ (by omega)
  omega

/-- The price by cases: the floor once the duration is over, before that the start price less the
    decay, as long as the product fits. -/
theorem priceAt_eq_ok (h : cfg.Accepted) :
    priceAt cfg ledger = .ok price ↔
      cfg.startLedger + cfg.durationLedgers ≤ ledger ∧ price = cfg.floorPrice ∨
      ledger < cfg.startLedger + cfg.durationLedgers ∧ InI128 (decayProduct cfg ledger) ∧
        price = cfg.startPrice - decay cfg ledger := by
  have hpos := h.duration_pos
  have hfloor := h.floor_nonneg
  have hspread := h.floor_lt
  have hfits := h.startPrice_fits
  unfold priceAt saturatingSubU32
  by_cases hover : cfg.durationLedgers ≤ ledger - cfg.startLedger
  · rw [if_pos hover, pure_eq_ok]
    constructor
    · intro hprice
      exact .inl ⟨by omega, hprice.symm⟩
    · rintro (⟨-, hprice⟩ | ⟨hrunning, -⟩)
      · exact hprice.symm
      · omega
  · have hsub : InI128 (cfg.startPrice - cfg.floorPrice) := by
      unfold InI128 at hfits ⊢
      omega
    have hrunning : ledger < cfg.startLedger + cfg.durationLedgers := by omega
    have hdecay := decay_le h hrunning
    have hdecay' : 0 ≤ decay cfg ledger := decay_nonneg h
    have hmul : ∀ q, mulDiv (cfg.startPrice - cfg.floorPrice) (ledger - cfg.startLedger : ℕ)
        cfg.durationLedgers = .ok q ↔ InI128 (decayProduct cfg ledger) ∧ q = decay cfg ledger :=
      fun q => mulDiv_eq_ok_iff (decayProduct_nonneg h) (by omega)
    rw [if_neg hover]
    cases hdiv : mulDiv (cfg.startPrice - cfg.floorPrice) (ledger - cfg.startLedger : ℕ)
        cfg.durationLedgers with
    | error e =>
      have hbig : ¬ InI128 (decayProduct cfg ledger) := by
        intro hfit
        rw [(hmul _).mpr ⟨hfit, rfl⟩] at hdiv
        cases hdiv
      simp [checkedSub, checked, hsub, okOr, hbig, hdiv, Nat.not_le.mpr hrunning]
    | ok d =>
      obtain ⟨hfit, rfl⟩ := (hmul d).mp hdiv
      have hprice : InI128 (cfg.startPrice - decay cfg ledger) := by
        unfold InI128 at hfits ⊢
        omega
      have hmax : max (cfg.startPrice - decay cfg ledger) cfg.floorPrice =
          cfg.startPrice - decay cfg ledger := max_eq_left (by omega)
      simp [checkedSub, checked, hsub, okOr, hfit, hdiv, hprice, hmax, hrunning,
        Nat.not_le.mpr hrunning]
      exact eq_comm

/-- There is a price once the auction is over, and before that as long as the product of the
    spread and the elapsed ledgers is an `i128`. -/
theorem priceAt_isOk (h : cfg.Accepted) :
    (∃ price, priceAt cfg ledger = .ok price) ↔
      cfg.startLedger + cfg.durationLedgers ≤ ledger ∨ InI128 (decayProduct cfg ledger) := by
  simp only [priceAt_eq_ok h]
  constructor
  · rintro ⟨price, ⟨hover, -⟩ | ⟨-, hfits, -⟩⟩
    · exact .inl hover
    · exact .inr hfits
  · intro hcond
    by_cases hover : cfg.startLedger + cfg.durationLedgers ≤ ledger
    · exact ⟨_, .inl ⟨hover, rfl⟩⟩
    · exact ⟨_, .inr ⟨by omega, hcond.resolve_left hover, rfl⟩⟩

/-- The line from the start price to the floor price. -/
def line (cfg : DutchConfig) (ledger : ℕ) : ℚ :=
  cfg.startPrice - (cfg.startPrice - cfg.floorPrice) * (ledger - cfg.startLedger) / cfg.durationLedgers

theorem ceil_line (hle : cfg.startLedger ≤ ledger) :
    ⌈line cfg ledger⌉ = cfg.startPrice - decay cfg ledger := by
  have hproduct : ((cfg.startPrice : ℚ) - cfg.floorPrice) * (ledger - cfg.startLedger) =
      (decayProduct cfg ledger : ℤ) := by
    rw [decayProduct]
    push_cast [hle]
    ring
  rw [line, hproduct, sub_eq_neg_add, Int.ceil_add_intCast, Int.ceil_neg,
    Rat.floor_intCast_div_natCast, decay]
  ring

theorem line_of_end (h : cfg.Accepted) (hend : cfg.startLedger + cfg.durationLedgers = ledger) :
    line cfg ledger = cfg.floorPrice := by
  have hpos : (cfg.durationLedgers : ℚ) ≠ 0 := by
    have := h.duration_pos
    positivity
  rw [line, ← hend]
  push_cast
  field_simp
  ring

theorem priceAt_bounds (h : cfg.Accepted) (hprice : priceAt cfg ledger = .ok price) :
    cfg.floorPrice ≤ price ∧ price ≤ cfg.startPrice := by
  have hspread := h.floor_lt
  have hnonneg : 0 ≤ decay cfg ledger := decay_nonneg h
  rcases (priceAt_eq_ok h).mp hprice with ⟨-, rfl⟩ | ⟨hrunning, -, rfl⟩
  · omega
  · have hle := decay_le h hrunning
    omega

theorem priceAt_antitone (h : cfg.Accepted) (hle : ledger ≤ later)
    (hprice : priceAt cfg ledger = .ok price) (hlater : priceAt cfg later = .ok price') :
    price' ≤ price := by
  rcases (priceAt_eq_ok h).mp hlater with ⟨-, rfl⟩ | ⟨hrunning', -, rfl⟩
  · exact (priceAt_bounds h hprice).1
  · rcases (priceAt_eq_ok h).mp hprice with ⟨hover, -⟩ | ⟨-, -, rfl⟩
    · omega
    · have hmono := decay_mono h hle
      omega

theorem priceAt_of_start (h : cfg.Accepted) (hle : ledger ≤ cfg.startLedger)
    (hprice : priceAt cfg ledger = .ok price) : price = cfg.startPrice := by
  have hpos := h.duration_pos
  rcases (priceAt_eq_ok h).mp hprice with ⟨hover, -⟩ | ⟨-, -, rfl⟩
  · omega
  · rw [decay_of_start hle, sub_zero]

theorem priceAt_of_end (h : cfg.Accepted) (hover : cfg.startLedger + cfg.durationLedgers ≤ ledger)
    (hprice : priceAt cfg ledger = .ok price) : price = cfg.floorPrice := by
  rcases (priceAt_eq_ok h).mp hprice with ⟨-, rfl⟩ | ⟨hrunning, -⟩
  · rfl
  · omega

theorem priceAt_ceil (h : cfg.Accepted) (hstart : cfg.startLedger ≤ ledger)
    (hend : ledger ≤ cfg.startLedger + cfg.durationLedgers)
    (hprice : priceAt cfg ledger = .ok price) : price = ⌈line cfg ledger⌉ := by
  rcases (priceAt_eq_ok h).mp hprice with ⟨hover, rfl⟩ | ⟨-, -, rfl⟩
  · rw [line_of_end h (by omega), Int.ceil_intCast]
  · exact (ceil_line hstart).symm

/-- Wherever there are prices they do not rise, lie between the floor and the start price, are
    the start price up to the start and the floor from the end on, and in between they are the
    line rounded up. -/
theorem priceAt_curve (cfg : DutchConfig) (h : cfg.Accepted) :
    (∀ t₁ t₂ p₁ p₂, t₁ ≤ t₂ → priceAt cfg t₁ = .ok p₁ → priceAt cfg t₂ = .ok p₂ → p₂ ≤ p₁) ∧
      ∀ t p, priceAt cfg t = .ok p →
        cfg.floorPrice ≤ p ∧ p ≤ cfg.startPrice ∧
          (t ≤ cfg.startLedger → p = cfg.startPrice) ∧
          (cfg.startLedger + cfg.durationLedgers ≤ t → p = cfg.floorPrice) ∧
          (cfg.startLedger ≤ t → t ≤ cfg.startLedger + cfg.durationLedgers →
            p = ⌈(cfg.startPrice : ℚ) - (cfg.startPrice - cfg.floorPrice) *
              (t - cfg.startLedger) / cfg.durationLedgers⌉) := by
  refine ⟨fun t₁ t₂ p₁ p₂ hle h₁ h₂ => priceAt_antitone h hle h₁ h₂, fun t p hprice => ?_⟩
  obtain ⟨hfloor, hstart⟩ := priceAt_bounds h hprice
  exact ⟨hfloor, hstart, fun hle => priceAt_of_start h hle hprice,
    fun hover => priceAt_of_end h hover hprice,
    fun hle hend => priceAt_ceil h hle hend hprice⟩

end Price

/-- From 1000 down to 100 in seven ledgers: the line is at 1000 - 900 * 3 / 7, and the price above
    it. -/
theorem priceAt_curve_demo :
    priceAt ⟨1000, 100, 10, 7⟩ 13 = .ok 615 ∧
      615 = ⌈(1000 : ℚ) - (1000 - 100) * (13 - 10) / 7⌉ := by
  have hok : priceAt ⟨1000, 100, 10, 7⟩ 13 = .ok 615 := rfl
  have hcurve := priceAt_curve ⟨1000, 100, 10, 7⟩
    ⟨by decide, by decide, by decide, by decide, by decide⟩
  have hline := (hcurve.2 13 615 hok).2.2.2.2 (by decide) (by decide)
  exact ⟨hok, by simpa using hline⟩

section Purchase
variable {house : Address} {env : Env} {buyer seller target : Address} {price maxPrice : ℤ}
  {s : State} {code : AuctionError}

theorem releaseNft_error : releaseNft house env target s ≠ .error (.error code) := by
  intro h
  unfold releaseNft trapUnless at h
  split at h
  · split at h <;> cases h
  · cases h

theorem paySale_error (h : paySale env buyer seller price s = .error (.error code)) :
    code = .notInitialized := by
  unfold paySale at h
  split at h
  · simp only [bind_eq_error, getInstance, okOr_eq_error] at h
    rcases h with ⟨-, h⟩ | ⟨token, -, h⟩
    · cases h
      rfl
    · unfold callTransfer recordTransfer trapUnless at h
      split at h <;> cases h
  · cases h

theorem buy_overflow {cfg : DutchConfig} (hcfg : s.dutchConfig = some cfg)
    (h : buy house env buyer maxPrice s = .error (.error .overflow)) :
    ¬ ∃ price, priceAt cfg env.sequence = .ok price := by
  rintro ⟨price, hprice⟩
  simp [buy, bind_eq_error, hcfg, getInstance, okOr_eq_error, rejectIf_eq_error, hprice,
    requireAuth_eq_error] at h
  obtain ⟨seller, -, -, -, -, -, hsale | ⟨t, -, hrelease⟩⟩ := h
  · cases paySale_error hsale
  · cases hreply : releaseNft house env buyer t with
    | ok u =>
      rw [hreply] at hrelease
      cases hrelease
    | error e =>
      rw [hreply] at hrelease
      cases hrelease
      exact releaseNft_error hreply

end Purchase

/-- A schedule has a price at a ledger, and no purchase there fails for arithmetic, exactly when
    the auction is over or the spread times the elapsed ledgers fits an `i128`. -/
theorem priceAt_total_iff (cfg : DutchConfig) (ledger : ℕ) (h : cfg.Accepted) :
    ((∃ price, priceAt cfg ledger = .ok price) ∧
        ∀ (house : Address) (env : Env) (buyer : Address) (maxPrice : ℤ) (s : State),
          s.dutchConfig = some cfg → env.sequence = ledger →
          buy house env buyer maxPrice s ≠ .error (.error .overflow)) ↔
      cfg.startLedger + cfg.durationLedgers ≤ ledger ∨
        InI128 ((cfg.startPrice - cfg.floorPrice) * (ledger - cfg.startLedger : ℕ)) := by
  constructor
  · rintro ⟨hprice, -⟩
    exact (priceAt_isOk h).mp hprice
  · intro hcond
    have hprice := (priceAt_isOk h).mpr hcond
    refine ⟨hprice, fun house env buyer maxPrice s hcfg hledger hbuy => ?_⟩
    subst hledger
    exact buy_overflow hcfg hbuy hprice

/-- From the largest price down to zero in three ledgers. -/
def demoDutch : DutchConfig := ⟨170141183460469231731687303715884105727, 0, 10, 3⟩

theorem demoDutch_accepted : demoDutch.Accepted := ⟨by decide, by decide, by decide, by decide, by decide⟩

theorem priceAt_total_iff_demo :
    (∃ price, priceAt demoDutch 11 = .ok price) ∧ ¬ ∃ price, priceAt demoDutch 12 = .ok price :=
  ⟨((priceAt_total_iff demoDutch 11 demoDutch_accepted).mpr (.inr (by decide))).1,
    fun hprice => absurd ((priceAt_isOk demoDutch_accepted).mp hprice) (by decide)⟩

def demoDutchEnv (sequence : ℕ) : Env :=
  { sequence, auths := [⟨1⟩, ⟨2⟩], tokens := ⟨fun _ _ => 0, fun _ _ => true, fun _ => true⟩,
    nftAccepts := fun _ => true, royaltyInfo := fun _ _ _ => none }

/-- The contract accepts the schedule, and at its third ledger there is no price and no purchase. -/
theorem priceAt_overflow :
    ∃ t, startDutch ⟨0⟩ (demoDutchEnv 5) ⟨1⟩ ⟨9⟩ 170141183460469231731687303715884105727 0 10 3 none
        none State.empty = .ok t ∧
      t.dutchConfig = some demoDutch ∧
      priceAt demoDutch 12 = .error (.error .overflow) ∧
      buy ⟨0⟩ (demoDutchEnv 12) ⟨2⟩ 170141183460469231731687303715884105727 t =
        .error (.error .overflow) :=
  ⟨_, rfl, rfl, rfl, rfl⟩

end SorobanKit.Auction
