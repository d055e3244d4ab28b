import Mathlib.Algebra.Order.Group.Nat
import SorobanKit.MarketplacePayout

set_option autoImplicit false

/-!
# The marketplace's own royalties

A share is the price times the discounted basis points, divided by 10000 and rounded down. The
product is an `i128`; where it does not fit, the recipient gets nothing.
-/
namespace SorobanKit.Marketplace
open CommonMath HostInteger HostInvocation HostRuns

/-- The basis points that a discount leaves. -/
def discountedBps (discountBps bps : ℕ) : ℕ := bps - bps * discountBps / 10000

/-- What a recipient is due. -/
def dueShare (price : ℤ) (discountBps bps : ℕ) : ℤ := price * discountedBps discountBps bps / 10000

def dueShares (price : ℤ) (discountBps : ℕ) (splits : List (Address × ℕ)) : List (Address × ℤ) :=
  splits.map fun split => (split.1, dueShare price discountBps split.2)

/-- Every recipient is paid what it is due, and the seller keeps the rest of the price. -/
structure PaysShares (price : ℤ) (discountBps : ℕ) (splits : List (Address × ℕ))
    (royalties : List (Address × ℤ)) : Prop where
  due : royalties = dueShares price discountBps splits
  within : (royalties.map Prod.snd).sum ≤ price

section Shares
variable {price : ℤ} {discountBps bps : ℕ} {splits : List (Address × ℕ)}

theorem effectiveBps_eq (hdiscount : discountBps ≤ 10000) (hbps : bps ≤ 10000) :
    effectiveBps discountBps bps = discountedBps discountBps bps := by
  have hproduct : bps * discountBps ≤ 10000 * 10000 := Nat.mul_le_mul hbps hdiscount
  have hfits : saturatingMulU32 bps discountBps = bps * discountBps := by
    unfold saturatingMulU32 u32Max
    omega
  unfold effectiveBps discountedBps saturatingSubU32
  rw [hfits]
  split
  · rfl
  · have hzero : discountBps = 0 := by omega
    rw [hzero, Nat.mul_zero, Nat.zero_div, Nat.sub_zero]

theorem royaltyShare_eq_iff (hprice : 0 < price) (hdiscount : discountBps ≤ 10000)
    (hbps : bps ≤ 10000) :
    royaltyShare price discountBps bps = dueShare price discountBps bps ↔
      InI128 (price * discountedBps discountBps bps) := by
  have hproduct : 0 ≤ price * discountedBps discountBps bps :=
    Int.mul_nonneg hprice.le (Int.natCast_nonneg _)
  have hdiv : ∀ quotient, mulDiv price (discountedBps discountBps bps) 10000 = .ok quotient ↔
      InI128 (price * discountedBps discountBps bps) ∧
        quotient = price * discountedBps discountBps bps / 10000 :=
    fun _ => mulDiv_eq_ok_iff hproduct (by decide)
  unfold royaltyShare dueShare
  rw [effectiveBps_eq hdiscount hbps]
  constructor
  · intro hsame
    cases hresult : mulDiv price (discountedBps discountBps bps) 10000 with
    | ok quotient => exact ((hdiv quotient).mp hresult).1
    | error e =>
      rw [hresult] at hsame
      change 0 = _ at hsame
      unfold InI128
      omega
  · intro hfits
    rw [(hdiv _).mpr ⟨hfits, rfl⟩]
    rfl

theorem bps_le_splitTotal {split : Address × ℕ} (h : split ∈ splits) :
    split.2 ≤ splitTotal splits :=
  List.le_sum_of_mem (List.mem_map_of_mem h)

theorem ownShares_eq_iff (hprice : 0 < price) (hdiscount : discountBps ≤ 10000)
    (hsplits : splitTotal splits ≤ 10000) :
    ownShares price discountBps splits = dueShares price discountBps splits ↔
      ∀ split ∈ splits, InI128 (price * discountedBps discountBps split.2) := by
  unfold ownShares dueShares
  rw [List.map_inj_left]
  apply forall₂_congr
  intro split hsplit
  have hbps : split.2 ≤ 10000 := (bps_le_splitTotal hsplit).trans hsplits
  rw [Prod.mk.injEq, royaltyShare_eq_iff hprice hdiscount hbps]
  simp only [true_and]

theorem resolveRoyalty_own {env : Env} {nft : Address} {tokenId : ℕ} {s : State}
    (hnone : env.royaltyInfo nft tokenId price = some none) :
    resolveRoyalty env nft tokenId price discountBps s =
      .ok (ownShares price discountBps s.royalties) := by
  simp only [resolveRoyalty, hnone]
  rfl

end Shares

theorem royalties_setRoyaltySplits {env : Env} {admin : Address} {splits : List (Address × ℕ)}
    {s t : State} (hsplits : splits ≠ []) (h : setRoyaltySplits env admin splits s = .ok t) :
    t.royalties = splits := by
  simp only [setRoyaltySplits, bind_eq_ok, pure_eq_ok] at h
  obtain ⟨_, _, _, _, _, _, _, _, _, _, _, _, rfl⟩ := h
  have hempty : splits.isEmpty = false := by simpa using hsplits
  simp [State.royalties, hempty]

theorem run_priced {house admin token royaltyRecipient : Address} {royaltyBps : ℕ}
    {i₀ : Invocation house} {s : State}
    (hcall : i₀.call = .initializeMarketplace admin token royaltyBps royaltyRecipient)
    (hinit : exec i₀ State.empty = .ok s) (is : List (Invocation house)) : Priced (run s is) := by
  unfold exec at hinit
  rw [hcall] at hinit
  have hs : Priced s := initializeMarketplace_priced hinit
  exact run_invariant (fun s i t hs hok => exec_priced hs hok) hs is

/-- In every state that the marketplace reaches, for every price and discount, the royalties in force
    are paid as they are due if and only if no product of the price and a recipient's basis points
    overflows. -/
theorem royalty_shares_iff (house admin token : Address) (royaltyBps : ℕ)
    (royaltyRecipient : Address) (i₀ : Invocation house) (s : State)
    (hcall : i₀.call = .initializeMarketplace admin token royaltyBps royaltyRecipient)
    (hinit : exec i₀ State.empty = .ok s) (is : List (Invocation house)) (env : Env)
    (nft : Address) (tokenId : ℕ) (price : ℤ) (discountBps : ℕ) (hprice : 0 < price)
    (hdiscount : discountBps ≤ 10000) (hnone : env.royaltyInfo nft tokenId price = some none) :
    ∃ royalties, resolveRoyalty env nft tokenId price discountBps (run s is) = .ok royalties ∧
      (PaysShares price discountBps (run s is).royalties royalties ↔
        ∀ split ∈ (run s is).royalties, InI128 (price * discountedBps discountBps split.2)) := by
  have hsplits := (run_priced hcall hinit is).royalties_le
  have hexact := ownShares_eq_iff hprice hdiscount hsplits
  refine ⟨_, resolveRoyalty_own hnone, ?_⟩
  constructor
  · intro hpays
    exact hexact.mp hpays.due
  · intro hfits
    exact ⟨hexact.mpr hfits, ownShares_le discountBps hprice hsplits⟩

/-- Three recipients share ten percent. -/
def demoSplits : Invocation demoHouse :=
  demoCall 2 (.setRoyaltySplits demoAdmin [(demoAdmin, 333), (demoAlice, 333), (demoBob, 334)])

theorem royalty_shares_demo :
    resolveRoyalty demoAccept.toEnv demoNft 7 1001 2000 (run (run State.empty [demoInitialize]) [demoSplits]) =
        .ok [(demoAdmin, 26), (demoAlice, 26), (demoBob, 26)] ∧
      PaysShares 1001 2000 [(demoAdmin, 333), (demoAlice, 333), (demoBob, 334)]
        [(demoAdmin, 26), (demoAlice, 26), (demoBob, 26)] := by
  have hrun := royalty_shares_iff demoHouse demoAdmin demoToken 500 demoAdmin demoInitialize
    (run State.empty [demoInitialize]) rfl rfl [demoSplits] demoAccept.toEnv demoNft 7 1001 2000
    (by decide) (by decide) rfl
  obtain ⟨royalties, hok, hpays⟩ := hrun
  cases hok
  exact ⟨rfl, hpays.mpr (by decide)⟩

/-- Of the largest price five percent are due, and nothing is paid. -/
theorem royalty_share_dropped :
    let s := run State.empty [demoInitialize]
    let price : ℤ := 170141183460469231731687303715884105727
    s.royalties = [(demoAdmin, 500)] ∧
      resolveRoyalty demoAccept.toEnv demoNft 7 price 0 s = .ok [(demoAdmin, 0)] ∧
      dueShare price 0 500 = 8507059173023461586584365185794205286 ∧
      ¬ PaysShares price 0 s.royalties [(demoAdmin, 0)] :=
  ⟨rfl, rfl, rfl, fun hpays => absurd hpays.due (by decide)⟩

end SorobanKit.Marketplace
