import SorobanKit.OraclePublishers

set_option autoImplicit false

/-!
# The median of the fresh submissions

A minority cannot move the median out of an interval, as long as the two prices that are averaged
are not both beyond a quarter of the range. The quorum counts entries of the publisher list: it is a
quorum of publishers as long as no fresh one is listed twice.
-/
namespace SorobanKit.OraclePublishers
open HostInteger HostInvocation HostSorting

theorem tdiv_two_bounds (x : ℤ) : x - 1 ≤ 2 * x.tdiv 2 ∧ 2 * x.tdiv 2 ≤ x + 1 := by
  rw [Int.tdiv_eq_ediv]
  have hsign : Int.sign 2 = 1 := rfl
  rw [hsign]
  split <;> omega

/-- The average of two prices is between them unless the sum leaves the range and both are on the
    same side of what it becomes. -/
theorem average_between_iff {a b : ℤ} (hle : a ≤ b) :
    a ≤ (saturatingAdd a b).tdiv 2 ∧ (saturatingAdd a b).tdiv 2 ≤ b ↔
      a < 2 ^ 126 ∧ -2 ^ 126 ≤ b := by
  unfold saturatingAdd
  by_cases hfits : InI128 (a + b)
  · rw [saturate_of_inI128 hfits]
    have hhalf := tdiv_two_bounds (a + b)
    unfold InI128 at hfits
    omega
  · by_cases hpositive : 0 ≤ a + b
    · have htop : saturate (a + b) = 170141183460469231731687303715884105727 := by
        unfold InI128 at hfits
        unfold saturate
        omega
      have hhalf : (170141183460469231731687303715884105727 : ℤ).tdiv 2 = 2 ^ 126 - 1 := by decide
      unfold InI128 at hfits
      rw [htop, hhalf]
      omega
    · have hbottom : saturate (a + b) = -170141183460469231731687303715884105728 := by
        unfold InI128 at hfits
        unfold saturate
        omega
      have hhalf : (-170141183460469231731687303715884105728 : ℤ).tdiv 2 = -2 ^ 126 := by decide
      unfold InI128 at hfits
      rw [hbottom, hhalf]
      omega

section Ranks
variable {prices : List ℤ} {k : ℕ} {c lo hi : ℤ}

theorem sorted_lt_iff (hk : k < prices.length) :
    (sortInPlace prices).getD k default < c ↔ k < prices.countP (· < c) := by
  have hperm := sortInPlace_perm prices
  rw [← hperm.length_eq] at hk
  rw [← hperm.countP_eq]
  have hdown : ∀ a b : ℤ, a ≤ b → decide (b < c) = true → decide (a < c) = true := by
    intro a b hab hb
    rw [decide_eq_true_eq] at hb ⊢
    omega
  have hrank := sorted_getD_iff hdown (sortInPlace_sorted prices) hk
  rw [decide_eq_true_eq] at hrank
  exact hrank

theorem sorted_getD_le {j : ℕ} (hjk : j ≤ k) (hk : k < prices.length) :
    (sortInPlace prices).getD j default ≤ (sortInPlace prices).getD k default := by
  have hself : ¬ (sortInPlace prices).getD j default < (sortInPlace prices).getD j default :=
    lt_irrefl _
  rw [sorted_lt_iff (by omega)] at hself
  by_contra hlt
  rw [not_le, sorted_lt_iff hk] at hlt
  omega

theorem countP_le_eq (c : ℤ) (prices : List ℤ) :
    prices.countP (c ≤ ·) + prices.countP (· < c) = prices.length := by
  induction prices with
  | nil => rfl
  | cons x prices ih =>
    rw [List.countP_cons, List.countP_cons, List.length_cons]
    by_cases hx : c ≤ x
    · have hnot : ¬ x < c := not_lt.mpr hx
      simp only [hx, hnot, decide_true, decide_false, if_true, Bool.false_eq_true, if_false]
      omega
    · have hlt : x < c := not_le.mp hx
      simp only [hx, hlt, decide_true, decide_false, if_true, Bool.false_eq_true, if_false]
      omega

/-- The prices that an interval leaves out. -/
def outside (lo hi : ℤ) (prices : List ℤ) : ℕ := prices.countP fun x => x < lo ∨ hi < x

theorem below_le_outside : prices.countP (· < lo) ≤ outside lo hi prices := by
  apply List.countP_mono_left
  intro x _ hx
  rw [decide_eq_true_eq] at hx ⊢
  exact .inl hx

theorem above_le_outside : prices.countP (hi + 1 ≤ ·) ≤ outside lo hi prices := by
  apply List.countP_mono_left
  intro x _ hx
  rw [decide_eq_true_eq] at hx ⊢
  exact .inr (by omega)

theorem outside_below (h : ∀ x ∈ prices, x ≤ hi) : outside lo hi prices = prices.countP (· < lo) := by
  apply List.countP_congr
  intro x hx
  rw [decide_eq_true_eq, decide_eq_true_eq]
  have hle := h x hx
  omega

theorem outside_above (h : ∀ x ∈ prices, lo ≤ x) :
    outside lo hi prices = prices.countP (hi + 1 ≤ ·) := by
  apply List.countP_congr
  intro x hx
  rw [decide_eq_true_eq, decide_eq_true_eq]
  have hle := h x hx
  omega

end Ranks

/-- Fewer than half of the prices cannot move the result out of an interval that has the others. -/
def Robust (prices : List ℤ) (price : ℤ) : Prop :=
  ∀ lo hi, lo ≤ hi → 2 * outside lo hi prices < prices.length → lo ≤ price ∧ price ≤ hi

section Robustness
variable {prices : List ℤ} {a b price : ℤ}

theorem robust_of_between {j k : ℕ} (hj : prices.length ≤ 2 * (j + 1)) (hk : 2 * k ≤ prices.length)
    (hbound : k < prices.length) (hjk : j ≤ k)
    (hlow : (sortInPlace prices).getD j default ≤ price)
    (hhigh : price ≤ (sortInPlace prices).getD k default) : Robust prices price := by
  intro lo hi _ hout
  have hbelow : ¬ (sortInPlace prices).getD j default < lo := by
    rw [sorted_lt_iff (by omega)]
    have hcount : prices.countP (· < lo) ≤ outside lo hi prices := below_le_outside
    omega
  have habove : (sortInPlace prices).getD k default < hi + 1 := by
    rw [sorted_lt_iff hbound]
    have hcount : prices.countP (hi + 1 ≤ ·) ≤ outside lo hi prices := above_le_outside
    have hsum := countP_le_eq (hi + 1) prices
    omega
  omega

theorem sorted_getD_mem {k : ℕ} (hk : k < prices.length) :
    (sortInPlace prices).getD k default ∈ prices := by
  have hperm := sortInPlace_perm prices
  rw [← hperm.length_eq] at hk
  rw [getD_of_lt hk]
  exact hperm.mem_iff.mp (List.getElem_mem hk)

/-- What is robust is between the two middle prices: each of them ends an interval that leaves fewer
    than half of the prices out. -/
theorem between_of_robust {m : ℕ} (hlength : prices.length = 2 * (m + 1))
    (hrange : ∀ x ∈ prices, InI128 x) (h : Robust prices price) :
    (sortInPlace prices).getD m default ≤ price ∧
      price ≤ (sortInPlace prices).getD (m + 1) default := by
  constructor
  · have hself : ¬ (sortInPlace prices).getD m default < (sortInPlace prices).getD m default :=
      lt_irrefl _
    rw [sorted_lt_iff (by omega)] at hself
    have hall : ∀ x ∈ prices, x ≤ 2 ^ 127 := by
      intro x hx
      have hin := hrange x hx
      unfold InI128 at hin
      omega
    have hle := hall _ (sorted_getD_mem (by omega : m < prices.length))
    have hout : 2 * outside ((sortInPlace prices).getD m default) (2 ^ 127) prices <
        prices.length := by
      rw [outside_below hall]
      omega
    exact (h _ _ hle hout).1
  · have hself : (sortInPlace prices).getD (m + 1) default <
        (sortInPlace prices).getD (m + 1) default + 1 := Int.lt_add_one_of_le (le_refl _)
    rw [sorted_lt_iff (by omega)] at hself
    have hall : ∀ x ∈ prices, -2 ^ 127 ≤ x := by
      intro x hx
      have hin := hrange x hx
      unfold InI128 at hin
      omega
    have hle := hall _ (sorted_getD_mem (by omega : m + 1 < prices.length))
    have hout : 2 * outside (-2 ^ 127) ((sortInPlace prices).getD (m + 1) default) prices <
        prices.length := by
      have hsum := countP_le_eq ((sortInPlace prices).getD (m + 1) default + 1) prices
      rw [outside_above hall]
      omega
    exact (h _ _ hle hout).2

theorem middles_iff {m : ℕ} (hlength : prices.length = 2 * (m + 1)) :
    (sortInPlace prices).getD m default < 2 ^ 126 ∧
      -2 ^ 126 ≤ (sortInPlace prices).getD (m + 1) default ↔
    2 * prices.countP (2 ^ 126 ≤ ·) ≤ prices.length ∧
      2 * prices.countP (· < -2 ^ 126) ≤ prices.length := by
  have hsum := countP_le_eq (2 ^ 126) prices
  rw [sorted_lt_iff (by omega), ← not_lt, sorted_lt_iff (by omega)]
  constructor
  · intro h
    omega
  · intro h
    omega

theorem median_odd (hodd : prices.length % 2 ≠ 0) :
    median prices = (sortInPlace prices).getD (prices.length / 2) default := by
  unfold median
  dsimp only
  rw [(sortInPlace_perm prices).length_eq, if_neg hodd]

theorem median_even {m : ℕ} (hlength : prices.length = 2 * (m + 1)) :
    median prices = (saturatingAdd ((sortInPlace prices).getD m default)
      ((sortInPlace prices).getD (m + 1) default)).tdiv 2 := by
  have hhalf : 2 * (m + 1) / 2 = m + 1 := by omega
  unfold median
  dsimp only
  rw [(sortInPlace_perm prices).length_eq, hlength, if_pos (by omega), hhalf, Nat.add_sub_cancel]

/-- Of an even number of prices, no more than half are beyond a quarter of the range on one side. -/
def MiddlesFit (prices : List ℤ) : Prop :=
  prices.length % 2 = 0 → 2 * prices.countP (2 ^ 126 ≤ ·) ≤ prices.length ∧
    2 * prices.countP (· < -2 ^ 126) ≤ prices.length

instance (prices : List ℤ) : Decidable (MiddlesFit prices) :=
  inferInstanceAs (Decidable (_ → _))

theorem median_robust_iff (hne : prices ≠ []) (hrange : ∀ x ∈ prices, InI128 x) :
    Robust prices (median prices) ↔ MiddlesFit prices := by
  have hpositive := List.length_pos_iff.mpr hne
  by_cases heven : prices.length % 2 = 0
  · have hlength : prices.length = 2 * (prices.length / 2 - 1 + 1) := by omega
    have hle : (sortInPlace prices).getD (prices.length / 2 - 1) default ≤
        (sortInPlace prices).getD (prices.length / 2 - 1 + 1) default :=
      sorted_getD_le (Nat.le_succ _) (by omega)
    have hbetween := average_between_iff hle
    rw [middles_iff hlength] at hbetween
    rw [median_even hlength]
    constructor
    · intro hrobust _
      exact hbetween.mp (between_of_robust hlength hrange hrobust)
    · intro hcounts
      obtain ⟨hlow, hhigh⟩ := hbetween.mpr (hcounts heven)
      exact robust_of_between (by omega) (by omega) (by omega) (Nat.le_succ _) hlow hhigh
  · rw [median_odd heven]
    constructor
    · intro _ hcontra
      exact absurd hcontra heven
    · intro _
      exact robust_of_between (by omega) (by omega) (by omega) (le_refl _) (le_refl _) (le_refl _)

end Robustness

section Medians
variable {env : Env} {maxStalenessSeconds : ℕ} {s : State} {price : ℤ}

/-- The entries of the publisher list with a fresh submission, and their prices. -/
def freshEntries (env : Env) (maxStalenessSeconds : ℕ) (s : State) : List Address :=
  (s.publishers.getD []).filter fun publisher =>
    (freshPrice env maxStalenessSeconds s publisher).isSome

def countedPrices (env : Env) (maxStalenessSeconds : ℕ) (s : State) : List ℤ :=
  (s.publishers.getD []).filterMap (freshPrice env maxStalenessSeconds s)

/-- So many different publishers of the list have a fresh submission. -/
def QuorumMet (env : Env) (maxStalenessSeconds : ℕ) (s : State) : Prop :=
  ∃ publishers : Finset Address, s.minQuorum.getD 1 ≤ publishers.card ∧
    ∀ publisher ∈ publishers, publisher ∈ s.publishers.getD [] ∧
      (freshPrice env maxStalenessSeconds s publisher).isSome

/-- What a median price promises: enough publishers, a sort, and robustness. -/
structure MedianSound (env : Env) (maxStalenessSeconds : ℕ) (s : State) (price : ℤ) : Prop where
  quorum : QuorumMet env maxStalenessSeconds s
  sorted : (sortInPlace (countedPrices env maxStalenessSeconds s)).Perm
      (countedPrices env maxStalenessSeconds s) ∧
    (sortInPlace (countedPrices env maxStalenessSeconds s)).Pairwise (· ≤ ·)
  robust : Robust (countedPrices env maxStalenessSeconds s) price

theorem freshPrice_inI128 {publisher : Address}
    (h : freshPrice env maxStalenessSeconds s publisher = some price) : InI128 price := by
  unfold freshPrice at h
  rw [Option.bind_eq_some_iff] at h
  obtain ⟨submission, _, h⟩ := h
  dsimp only at h
  split at h
  · cases h
    exact submission.price.property
  · cases h

theorem countedPrices_length : (countedPrices env maxStalenessSeconds s).length =
    (freshEntries env maxStalenessSeconds s).length := by
  unfold countedPrices freshEntries
  rw [List.length_filterMap_eq_countP, List.countP_eq_length_filter]

theorem getMedianPrice_eq_ok : getMedianPrice env maxStalenessSeconds s = .ok price ↔
    countedPrices env maxStalenessSeconds s ≠ [] ∧
      s.minQuorum.getD 1 ≤ (freshEntries env maxStalenessSeconds s).length ∧
      price = median (countedPrices env maxStalenessSeconds s) := by
  rw [← countedPrices_length]
  unfold getMedianPrice countedPrices
  simp only [bind_eq_ok, okOr_eq_ok, rejectIf_eq_ok, pure_eq_ok, not_lt]
  cases hlist : s.publishers with
  | none => simp only [reduceCtorEq, false_and, exists_false, Option.getD_none, List.filterMap_nil,
      ne_eq, not_true_eq_false]
  | some publishers =>
    simp only [Option.some.injEq, exists_eq_left', Option.getD_some, exists_const, ne_eq,
      eq_comm (a := price)]

theorem countedPrices_inI128 : ∀ x ∈ countedPrices env maxStalenessSeconds s, InI128 x := by
  intro x hx
  obtain ⟨publisher, _, hfresh⟩ := List.mem_filterMap.mp hx
  exact freshPrice_inI128 hfresh

theorem quorumMet_of_nodup (hentries : s.minQuorum.getD 1 ≤
      (freshEntries env maxStalenessSeconds s).length)
    (hnodup : (freshEntries env maxStalenessSeconds s).Nodup) :
    QuorumMet env maxStalenessSeconds s := by
  refine ⟨(freshEntries env maxStalenessSeconds s).toFinset, ?_, ?_⟩
  · rw [List.toFinset_card_of_nodup hnodup]
    exact hentries
  · intro publisher hmem
    exact List.mem_filter.mp (List.mem_toFinset.mp hmem)

theorem nodup_of_quorumMet (hentries : (freshEntries env maxStalenessSeconds s).length ≤
      s.minQuorum.getD 1) (hquorum : QuorumMet env maxStalenessSeconds s) :
    (freshEntries env maxStalenessSeconds s).Nodup := by
  obtain ⟨publishers, hcard, hfresh⟩ := hquorum
  have hsub : publishers ⊆ (freshEntries env maxStalenessSeconds s).toFinset := by
    intro publisher hmem
    exact List.mem_toFinset.mpr (List.mem_filter.mpr (hfresh publisher hmem))
  have hle := Finset.card_le_card hsub
  have hatMost := List.toFinset_card_le (freshEntries env maxStalenessSeconds s)
  have hall : (freshEntries env maxStalenessSeconds s).toFinset.card =
      (freshEntries env maxStalenessSeconds s).length := by omega
  rw [← Multiset.coe_nodup]
  exact Multiset.toFinset_card_eq_card_iff_nodup.mp hall

/-- For a quorum of publishers the code's count is enough where no fresh one is listed twice, and
    then only the two prices in the middle decide. -/
theorem medianSound_iff (h : getMedianPrice env maxStalenessSeconds s = .ok price)
    (hnodup : (freshEntries env maxStalenessSeconds s).Nodup) :
    MedianSound env maxStalenessSeconds s price ↔
      MiddlesFit (countedPrices env maxStalenessSeconds s) := by
  obtain ⟨hne, hentries, rfl⟩ := getMedianPrice_eq_ok.mp h
  rw [← median_robust_iff hne countedPrices_inI128]
  constructor
  · intro hsound
    exact hsound.robust
  · intro hrobust
    exact ⟨quorumMet_of_nodup hentries hnodup, ⟨sortInPlace_perm _, sortInPlace_sorted _⟩, hrobust⟩

theorem nodup_and_middlesFit (hevery : ∀ minQuorum price,
      getMedianPrice env maxStalenessSeconds { s with minQuorum := minQuorum } = .ok price →
        MedianSound env maxStalenessSeconds { s with minQuorum := minQuorum } price) :
    (freshEntries env maxStalenessSeconds s).Nodup ∧
      MiddlesFit (countedPrices env maxStalenessSeconds s) := by
  have hlength : (countedPrices env maxStalenessSeconds s).length =
      (freshEntries env maxStalenessSeconds s).length := countedPrices_length
  by_cases hne : countedPrices env maxStalenessSeconds s = []
  · rw [hne, List.length_nil] at hlength
    rw [List.eq_nil_of_length_eq_zero hlength.symm, hne]
    exact ⟨List.nodup_nil, fun _ => ⟨le_refl _, le_refl _⟩⟩
  · let all : State :=
      { s with minQuorum := some (freshEntries env maxStalenessSeconds s).length }
    have hok : getMedianPrice env maxStalenessSeconds all =
        .ok (median (countedPrices env maxStalenessSeconds s)) :=
      getMedianPrice_eq_ok.mpr ⟨hne, le_refl _, rfl⟩
    have hsound := hevery _ _ hok
    have hnodup : (freshEntries env maxStalenessSeconds all).Nodup :=
      nodup_of_quorumMet (le_refl _) hsound.quorum
    exact ⟨hnodup, (medianSound_iff hok hnodup).mp hsound⟩

/-- If no publisher with a fresh submission is listed twice, a median price is what it promises
    exactly if no two large prices of one sign are averaged. If one is listed twice, there is a
    quorum that lets a median price through without being met. -/
theorem median_price_sound_iff :
    (∀ price, getMedianPrice env maxStalenessSeconds s = .ok price →
      (freshEntries env maxStalenessSeconds s).Nodup →
        (MedianSound env maxStalenessSeconds s price ↔
          MiddlesFit (countedPrices env maxStalenessSeconds s))) ∧
    ((∀ minQuorum price,
      getMedianPrice env maxStalenessSeconds { s with minQuorum := minQuorum } = .ok price →
        MedianSound env maxStalenessSeconds { s with minQuorum := minQuorum } price) ↔
      (freshEntries env maxStalenessSeconds s).Nodup ∧
        MiddlesFit (countedPrices env maxStalenessSeconds s)) := by
  refine ⟨fun price => medianSound_iff, ?_, ?_⟩
  · intro hevery
    exact nodup_and_middlesFit hevery
  · intro hboth minQuorum price hok
    exact (medianSound_iff hok hboth.1).mpr hboth.2

end Medians

def demoAdmin : Address := ⟨0⟩
def demoAlice : Address := ⟨1⟩
def demoBob : Address := ⟨2⟩

def demoEnv (timestamp : ℕ) : Env where
  sequence := timestamp
  auths := [demoAdmin, demoAlice, demoBob]
  timestamp := timestamp

def demoInvoke (timestamp : ℕ) (call : Call) : Invocation where
  toEnv := demoEnv timestamp
  call := call

theorem demoPrice_fits : InI128 100 := by decide
theorem demoHigher_fits : InI128 110 := by decide

def demoPrice : I128 := ⟨100, demoPrice_fits⟩
def demoHigher : I128 := ⟨110, demoHigher_fits⟩

/-- Two publishers are asked for. -/
def demoFeed (publishers : List Address) : List Invocation :=
  [demoInvoke 1 (.initializeFeed demoAdmin 100), demoInvoke 2 (.setPublishers demoAdmin publishers),
    demoInvoke 3 (.setMinQuorum demoAdmin 2)]

/-- Alice is on the list twice and submits once. -/
def demoRepeated : State := runFeed {}
  (demoFeed [demoAlice, demoAlice] ++ [demoInvoke 4 (.submitPrice demoAlice demoPrice)])

/-- Alice and Bob agree on a price beyond a quarter of the range. -/
def demoLarge : State := runFeed {} (demoFeed [demoAlice, demoBob] ++
  [demoInvoke 4 (.submitPrice demoAlice ⟨2 ^ 126, by decide⟩),
    demoInvoke 5 (.submitPrice demoBob ⟨2 ^ 126, by decide⟩)])

/-- Alice and Bob submit. -/
def demoQuorum : State := runFeed {} (demoFeed [demoAlice, demoBob] ++
  [demoInvoke 4 (.submitPrice demoAlice demoPrice),
    demoInvoke 5 (.submitPrice demoBob demoHigher)])

theorem median_price_sound_demo : MedianSound (demoEnv 6) 10 demoQuorum 105 := by
  have hok : getMedianPrice (demoEnv 6) 10 demoQuorum = .ok 105 := rfl
  have hnodup : (freshEntries (demoEnv 6) 10 demoQuorum).Nodup := by decide +kernel
  apply (median_price_sound_iff.1 105 hok hnodup).mpr
  decide +kernel

/-- One publisher passes a quorum of two, and two publishers who agree do not get their price. -/
theorem median_price_unsound :
    getMedianPrice (demoEnv 6) 10 demoRepeated = .ok 100 ∧
    ¬ MedianSound (demoEnv 6) 10 demoRepeated 100 ∧
    getMedianPrice (demoEnv 6) 10 demoLarge = .ok (2 ^ 126 - 1) ∧
    ¬ MedianSound (demoEnv 6) 10 demoLarge (2 ^ 126 - 1) := by
  refine ⟨rfl, ?_, rfl, ?_⟩
  · intro hsound
    obtain ⟨publishers, hcard, hfresh⟩ := hsound.quorum
    have hsub : publishers ⊆ {demoAlice} := by
      intro publisher hmem
      have hlisted : publisher ∈ [demoAlice, demoAlice] := (hfresh publisher hmem).1
      simpa using hlisted
    have hle := Finset.card_le_card hsub
    have hquorum : demoRepeated.minQuorum.getD 1 = 2 := rfl
    rw [Finset.card_singleton] at hle
    omega
  · intro hsound
    have hout : 2 * outside (2 ^ 126) (2 ^ 126) (countedPrices (demoEnv 6) 10 demoLarge) <
        (countedPrices (demoEnv 6) 10 demoLarge).length := by decide +kernel
    have hlow := (hsound.robust (2 ^ 126) (2 ^ 126) (le_refl _) hout).1
    omega

end SorobanKit.OraclePublishers
