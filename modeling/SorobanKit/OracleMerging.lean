import Mathlib.Tactic.Linarith
import Mathlib.Tactic.Ring
import SorobanKit.HostFolds
import SorobanKit.OracleMedian

set_option autoImplicit false

/-!
# Prices of one timestamp

The first two prices of a timestamp are averaged, and every later one is averaged with what is there
already, so that each counts for half of what follows it. The order matters from three prices on.
-/
namespace SorobanKit.OraclePublishers
open HostFolds HostInteger
open Oracle (PriceObservation maxHistory)

/-- Prices recorded one after the other with one timestamp. -/
def recordAll (timestamp : ℕ) (history : List PriceObservation) (prices : List ℤ) :
    List PriceObservation :=
  prices.foldl (fun history price => pushHistory history price timestamp) history

def stored (timestamp : ℕ) (history : List PriceObservation) : List PriceObservation :=
  history.filter fun observation => observation.timestamp = timestamp

/-- Prices that are not negative and whose sums fit. -/
def Small (prices : List ℤ) : Prop := ∀ price ∈ prices, 0 ≤ price ∧ price < 2 ^ 126

/-- Every order of the prices leaves the same observation, which for small ones is their mean up to
    rounding. -/
def MergesEqually (history : List PriceObservation) (timestamp : ℕ) (prices : List ℤ) : Prop :=
  ∃ price, (∀ order : List ℤ, order.Perm prices →
      stored timestamp (recordAll timestamp history order) = [⟨price, timestamp⟩]) ∧
    (Small prices → |prices.length * price - prices.sum| < prices.length)

section Stored
variable {history : List PriceObservation} {timestamp : ℕ} {prices : List ℤ}

theorem pushHistory_newer (hnewer : ∀ o ∈ history, o.timestamp < timestamp) (price : ℤ) :
    ∃ older, (∀ o ∈ older, o.timestamp < timestamp) ∧
      pushHistory history price timestamp = older ++ [⟨price, timestamp⟩] := by
  unfold pushHistory
  cases hlast : history.getLast? with
  | none => exact ⟨[], by simp, rfl⟩
  | some last =>
    have hmem : last ∈ history := List.mem_of_getLast? hlast
    have hne : last.timestamp ≠ timestamp := Nat.ne_of_lt (hnewer last hmem)
    dsimp only
    rw [if_neg hne, List.length_append, List.length_singleton]
    refine ⟨history.drop (history.length + 1 - maxHistory), ?_, ?_⟩
    · intro o ho
      exact hnewer o (List.mem_of_mem_drop ho)
    · rw [List.drop_append_of_le_length]
      unfold maxHistory
      omega

theorem pushHistory_merges (older : List PriceObservation) (last price : ℤ) :
    pushHistory (older ++ [⟨last, timestamp⟩]) price timestamp =
      older ++ [⟨mergedPrice last price, timestamp⟩] := by
  unfold pushHistory
  rw [List.getLast?_append, List.getLast?_singleton]
  dsimp only [Option.some_or]
  rw [if_pos rfl, List.length_append, List.length_singleton, Nat.add_sub_cancel,
    List.set_append_right _ _ (Nat.le_refl _), Nat.sub_self]
  rfl

theorem recordAll_merges (older : List PriceObservation) (last : ℤ) (prices : List ℤ) :
    recordAll timestamp (older ++ [⟨last, timestamp⟩]) prices =
      older ++ [⟨prices.foldl mergedPrice last, timestamp⟩] := by
  induction prices generalizing last with
  | nil => rfl
  | cons price prices ih =>
    unfold recordAll at ih ⊢
    rw [List.foldl_cons, pushHistory_merges, ih]
    rfl

theorem stored_recordAll (hnewer : ∀ o ∈ history, o.timestamp < timestamp) (hne : prices ≠ []) :
    stored timestamp (recordAll timestamp history prices) =
      [⟨mergeAll mergedPrice 0 prices, timestamp⟩] := by
  cases prices with
  | nil => exact absurd rfl hne
  | cons first rest =>
    obtain ⟨older, holder, hpush⟩ := pushHistory_newer hnewer first
    have hrecord : recordAll timestamp history (first :: rest) =
        older ++ [⟨rest.foldl mergedPrice first, timestamp⟩] := by
      rw [← recordAll_merges, ← hpush]
      rfl
    have hnone : older.filter (fun o => o.timestamp = timestamp) = [] := by
      rw [List.filter_eq_nil_iff]
      intro o ho
      rw [decide_eq_true_eq]
      exact Nat.ne_of_lt (holder o ho)
    unfold stored
    rw [hrecord, List.filter_append, hnone, List.nil_append]
    exact List.filter_cons_of_pos (decide_eq_true rfl)

end Stored

theorem halved_step {x y : ℤ} (h : x ≤ y) :
    (saturate x).tdiv 2 ≤ (saturate y).tdiv 2 ∧
      (saturate y).tdiv 2 - (saturate x).tdiv 2 ≤ y - x := by
  have hsat : saturate x ≤ saturate y ∧ saturate y - saturate x ≤ y - x := by
    unfold saturate
    omega
  have hsign : Int.sign 2 = 1 := rfl
  rw [Int.tdiv_eq_ediv, Int.tdiv_eq_ediv, hsign]
  split <;> split <;> omega

theorem mergedPrice_comm (a b : ℤ) : mergedPrice a b = mergedPrice b a := by
  unfold mergedPrice saturatingAdd
  rw [Int.add_comm]

theorem mergedPrice_mono {v w : ℤ} (h : v ≤ w) (a : ℤ) : mergedPrice v a ≤ mergedPrice w a :=
  (halved_step (Int.add_le_add_right h a)).1

theorem mergedPrice_later (v : ℤ) {a b : ℤ} (h : a ≤ b) :
    mergedPrice (mergedPrice v b) a ≤ mergedPrice (mergedPrice v a) b := by
  have hstep := (halved_step (Int.add_le_add_left h v)).2
  have hsum : mergedPrice v b + a ≤ mergedPrice v a + b := by
    unfold mergedPrice saturatingAdd
    omega
  exact (halved_step hsum).1

theorem merging_up : Merging (· ≤ ·) mergedPrice where
  comm := mergedPrice_comm
  mono _ _ a h := mergedPrice_mono h a
  later v _ _ h := mergedPrice_later v h

theorem merging_down : Merging (· ≥ ·) mergedPrice where
  comm := mergedPrice_comm
  mono _ _ a h := mergedPrice_mono h a
  later v _ _ h := mergedPrice_later v h

/-- Every price counts for half of what those before it count for together. -/
def weigh : List ℤ → ℤ
  | [] => 0
  | price :: rest => price + 2 * weigh rest

def weighted : List ℤ → ℤ
  | [] => 0
  | first :: rest => first + weigh rest

section Weights
variable {first : ℤ} {prices rest : List ℤ}

theorem mergedPrice_small {a b : ℤ} (ha : 0 ≤ a ∧ a < 2 ^ 126) (hb : 0 ≤ b ∧ b < 2 ^ 126) :
    mergedPrice a b = (a + b) / 2 := by
  have hfits : InI128 (a + b) := by
    unfold InI128
    omega
  unfold mergedPrice saturatingAdd
  rw [saturate_of_inI128 hfits, Int.tdiv_eq_ediv_of_nonneg (by omega)]

theorem foldl_mergedPrice (hfirst : 0 ≤ first ∧ first < 2 ^ 126) (hrest : Small rest) :
    rest.foldl mergedPrice first = (first + weigh rest) / 2 ^ rest.length := by
  induction rest generalizing first with
  | nil =>
    unfold weigh
    rw [List.foldl_nil, List.length_nil, pow_zero, Int.ediv_one, add_zero]
  | cons price rest ih =>
    obtain ⟨hprice, hrest⟩ := List.forall_mem_cons.mp hrest
    have hhalf : 0 ≤ (first + price) / 2 ∧ (first + price) / 2 < 2 ^ 126 := by omega
    have hround : (first + price) / 2 + weigh rest = (first + (price + 2 * weigh rest)) / 2 := by
      omega
    rw [List.foldl_cons, mergedPrice_small hfirst hprice, ih hhalf hrest, hround,
      Int.ediv_ediv_of_nonneg (by decide), List.length_cons, pow_succ, Int.mul_comm (2 ^ rest.length) 2]
    rfl

theorem mergeAll_small (h : Small prices) :
    mergeAll mergedPrice 0 prices = weighted prices / 2 ^ (prices.length - 1) := by
  cases prices with
  | nil => rfl
  | cons first rest =>
    obtain ⟨hfirst, hrest⟩ := List.forall_mem_cons.mp h
    rw [List.length_cons, Nat.add_sub_cancel]
    exact foldl_mergedPrice hfirst hrest

theorem weigh_append (prices : List ℤ) (last : ℤ) :
    weigh (prices ++ [last]) = weigh prices + 2 ^ prices.length * last := by
  induction prices with
  | nil =>
    change last + 2 * 0 = 0 + 2 ^ 0 * last
    omega
  | cons price prices ih =>
    change price + 2 * weigh (prices ++ [last]) =
      price + 2 * weigh prices + 2 ^ (prices.length + 1) * last
    rw [ih, pow_succ]
    ring

theorem sum_le_of_all {bound : ℤ} (h : ∀ price ∈ prices, price ≤ bound) :
    prices.sum ≤ prices.length * bound := by
  have hsum := List.sum_le_card_nsmul prices bound h
  rw [nsmul_eq_mul] at hsum
  exact hsum

theorem mean_step {k q sum weight last : ℤ} (hk : 0 ≤ k) (hq : 0 ≤ q)
    (hmean : q * sum ≤ (k + 1) * weight) (hbound : sum ≤ (k + 1) * last) :
    2 * q * (sum + last) ≤ (k + 2) * (weight + q * last) := by
  have hfirst : (k + 2) * (q * sum) ≤ (k + 2) * ((k + 1) * weight) :=
    Int.mul_le_mul_of_nonneg_left hmean (by omega)
  have hsecond : k * q * sum ≤ k * q * ((k + 1) * last) :=
    Int.mul_le_mul_of_nonneg_left hbound (Int.mul_nonneg hk hq)
  have hscaled : (k + 1) * (2 * q * (sum + last)) ≤ (k + 1) * ((k + 2) * (weight + q * last)) := by
    calc (k + 1) * (2 * q * (sum + last))
      _ = (k + 2) * (q * sum) + k * q * sum + 2 * (k + 1) * q * last := by ring
      _ ≤ (k + 2) * ((k + 1) * weight) + k * q * ((k + 1) * last) + 2 * (k + 1) * q * last := by
        linarith
      _ = (k + 1) * ((k + 2) * (weight + q * last)) := by ring
  exact Int.le_of_mul_le_mul_left hscaled (by omega)

theorem mean_le_weighted_cons (h : (first :: rest).Pairwise (· ≤ ·)) :
    2 ^ rest.length * (first + rest.sum) ≤ (rest.length + 1) * (first + weigh rest) := by
  induction rest using List.reverseRecOn with
  | nil =>
    change 2 ^ 0 * (first + 0) ≤ (0 + 1) * (first + 0)
    omega
  | append_singleton rest last ih =>
    rw [← List.cons_append] at h
    obtain ⟨hsorted, _, hlast⟩ := List.pairwise_append.mp h
    have hbound : (first :: rest).sum ≤ (first :: rest).length * last :=
      sum_le_of_all fun price hprice => hlast price hprice last List.mem_cons_self
    rw [List.sum_cons, List.length_cons] at hbound
    push_cast at hbound
    have hstep := mean_step (Int.natCast_nonneg _) (Int.le_of_lt (Int.pow_pos (by decide)))
      (ih hsorted) hbound
    rw [weigh_append, List.sum_append, List.sum_singleton, List.length_append,
      List.length_singleton, pow_succ]
    push_cast
    linarith

theorem weigh_neg (prices : List ℤ) : weigh (prices.map fun price => -price) = -weigh prices := by
  induction prices with
  | nil => rfl
  | cons price prices ih =>
    change -price + 2 * weigh (prices.map fun price => -price) = -(price + 2 * weigh prices)
    rw [ih]
    omega

theorem sum_neg (prices : List ℤ) : (prices.map fun price => -price).sum = -prices.sum := by
  induction prices with
  | nil => rfl
  | cons price prices ih =>
    rw [List.map_cons, List.sum_cons, List.sum_cons, ih]
    omega

theorem weighted_le_mean_cons (h : (first :: rest).Pairwise (· ≥ ·)) :
    (rest.length + 1) * (first + weigh rest) ≤ 2 ^ rest.length * (first + rest.sum) := by
  have hsorted : ((-first) :: rest.map fun price => -price).Pairwise (· ≤ ·) := by
    rw [← List.map_cons (f := fun price : ℤ => -price), List.pairwise_map]
    exact h.imp fun hge => Int.neg_le_neg hge
  have hmean := mean_le_weighted_cons hsorted
  rw [List.length_map, weigh_neg, sum_neg] at hmean
  linarith

theorem mean_le_weighted (h : prices.Pairwise (· ≤ ·)) :
    2 ^ (prices.length - 1) * prices.sum ≤ prices.length * weighted prices := by
  cases prices with
  | nil => exact le_refl 0
  | cons first rest =>
    rw [List.length_cons, Nat.add_sub_cancel, List.sum_cons]
    push_cast
    exact mean_le_weighted_cons h

theorem weighted_le_mean (h : prices.Pairwise (· ≥ ·)) :
    prices.length * weighted prices ≤ 2 ^ (prices.length - 1) * prices.sum := by
  cases prices with
  | nil => exact le_refl 0
  | cons first rest =>
    rw [List.length_cons, Nat.add_sub_cancel, List.sum_cons]
    push_cast
    exact weighted_le_mean_cons h

end Weights

def ascending (prices : List ℤ) : List ℤ := prices.insertionSort (· ≤ ·)

def descending (prices : List ℤ) : List ℤ := prices.insertionSort (· ≥ ·)

/-- The weighted sum of the prices, divided by the sum of the weights. -/
def weightedMean (prices : List ℤ) : ℤ := weighted prices / 2 ^ (prices.length - 1)

section Fairness
variable {history : List PriceObservation} {timestamp : ℕ} {prices : List ℤ}

theorem ascending_perm (prices : List ℤ) : (ascending prices).Perm prices :=
  List.perm_insertionSort _ prices

theorem descending_perm (prices : List ℤ) : (descending prices).Perm prices :=
  List.perm_insertionSort _ prices

theorem Small.perm {order : List ℤ} (h : Small prices) (hperm : order.Perm prices) : Small order :=
  fun price hprice => h price (hperm.mem_iff.mp hprice)

theorem mean_of_extremes (hne : prices ≠ []) {price : ℤ}
    (hup : price = weightedMean (ascending prices))
    (hdown : price = weightedMean (descending prices)) :
    |prices.length * price - prices.sum| < prices.length := by
  have hmost := mean_le_weighted (List.pairwise_insertionSort (· ≤ ·) prices)
  have hleast := weighted_le_mean (List.pairwise_insertionSort (· ≥ ·) prices)
  change 2 ^ ((ascending prices).length - 1) * (ascending prices).sum ≤
    (ascending prices).length * weighted (ascending prices) at hmost
  change (descending prices).length * weighted (descending prices) ≤
    2 ^ ((descending prices).length - 1) * (descending prices).sum at hleast
  unfold weightedMean at hup hdown
  rw [(ascending_perm prices).length_eq] at hmost hup
  rw [(ascending_perm prices).sum_eq] at hmost
  rw [(descending_perm prices).length_eq] at hleast hdown
  rw [(descending_perm prices).sum_eq] at hleast
  have hscale : (0 : ℤ) < 2 ^ (prices.length - 1) := Int.pow_pos (by decide)
  have hcount : (0 : ℤ) < prices.length := by
    exact_mod_cast List.length_pos_iff.mpr hne
  have hlow : price * 2 ^ (prices.length - 1) ≤ weighted (descending prices) := by
    rw [hdown]
    exact Int.ediv_mul_le _ (ne_of_gt hscale)
  have hhigh : weighted (ascending prices) < (price + 1) * 2 ^ (prices.length - 1) := by
    rw [hup]
    exact Int.lt_ediv_add_one_mul_self _ hscale
  have hbelow : prices.length * price ≤ prices.sum := by
    apply Int.le_of_mul_le_mul_left _ hscale
    calc 2 ^ (prices.length - 1) * (prices.length * price)
      _ = prices.length * (price * 2 ^ (prices.length - 1)) := by ring
      _ ≤ prices.length * weighted (descending prices) :=
        Int.mul_le_mul_of_nonneg_left hlow (le_of_lt hcount)
      _ ≤ 2 ^ (prices.length - 1) * prices.sum := hleast
  have habove : prices.sum < prices.length * (price + 1) := by
    apply Int.lt_of_mul_lt_mul_left _ (le_of_lt hscale)
    calc 2 ^ (prices.length - 1) * prices.sum
      _ ≤ prices.length * weighted (ascending prices) := hmost
      _ < prices.length * ((price + 1) * 2 ^ (prices.length - 1)) :=
        Int.mul_lt_mul_of_pos_left hhigh hcount
      _ = 2 ^ (prices.length - 1) * (prices.length * (price + 1)) := by ring
  rw [mul_add, mul_one] at habove
  rw [abs_lt]
  omega

theorem mergesEqually_iff (hnewer : ∀ o ∈ history, o.timestamp < timestamp) (hne : prices ≠ []) :
    MergesEqually history timestamp prices ↔
      mergeAll mergedPrice 0 (ascending prices) = mergeAll mergedPrice 0 (descending prices) := by
  have hstored : ∀ order : List ℤ, order.Perm prices →
      stored timestamp (recordAll timestamp history order) =
        [⟨mergeAll mergedPrice 0 order, timestamp⟩] := by
    intro order hperm
    apply stored_recordAll hnewer
    intro hnil
    rw [hnil] at hperm
    exact hne hperm.nil_eq.symm
  constructor
  · intro hmerges
    obtain ⟨price, hall, _⟩ := hmerges
    have hone : ∀ order : List ℤ, order.Perm prices → mergeAll mergedPrice 0 order = price := by
      intro order hperm
      have hsame := (hstored order hperm).symm.trans (hall order hperm)
      rw [List.cons.injEq, PriceObservation.mk.injEq] at hsame
      exact hsame.1.1
    rw [hone _ (ascending_perm prices), hone _ (descending_perm prices)]
  · intro hsame
    have hfree := (mergeAll_order_free_iff merging_up merging_down 0 prices).mpr hsame
    refine ⟨mergeAll mergedPrice 0 prices, ?_, ?_⟩
    · intro order hperm
      rw [hstored order hperm, hfree order hperm]
    · intro hsmall
      apply mean_of_extremes hne
      · rw [← hfree _ (ascending_perm prices)]
        exact mergeAll_small (hsmall.perm (ascending_perm prices))
      · rw [← hfree _ (descending_perm prices)]
        exact mergeAll_small (hsmall.perm (descending_perm prices))

theorem extremes_of_pair (h : prices.length ≤ 2) :
    mergeAll mergedPrice 0 (ascending prices) = mergeAll mergedPrice 0 (descending prices) := by
  match prices with
  | [] => rfl
  | [a] => rfl
  | [a, b] =>
    have hswap : mergeAll mergedPrice 0 [a, b] = mergeAll mergedPrice 0 [b, a] :=
      mergedPrice_comm a b
    unfold ascending descending
    simp only [List.insertionSort_cons, List.insertionSort_nil, List.orderedInsert_nil,
      List.orderedInsert_cons]
    split <;> split
    · rfl
    · exact hswap
    · exact hswap.symm
    · rfl
  | a :: b :: c :: rest =>
    simp only [List.length_cons] at h
    omega

theorem foldl_zeros_zero (n : ℕ) : (List.replicate n 0).foldl mergedPrice 0 = 0 := by
  induction n with
  | zero => rfl
  | succ n ih => exact ih

theorem foldl_zeros_le {price : ℤ} (hprice : 0 ≤ price ∧ price ≤ 1) (n : ℕ) :
    (List.replicate n 0).foldl mergedPrice price ≤ 1 := by
  induction n generalizing price with
  | zero => exact hprice.2
  | succ n ih =>
    rw [List.replicate_succ, List.foldl_cons]
    apply ih
    rw [mergedPrice_small (by omega) (by decide)]
    omega

theorem order_matters (timestamp : ℕ) {n : ℕ} (hn : 2 ≤ n) :
    ¬ MergesEqually [] timestamp (List.replicate n 0 ++ [4]) := by
  intro hmerges
  have hnewer : ∀ o ∈ ([] : List PriceObservation), o.timestamp < timestamp := by simp
  have hfree := (mergeAll_order_free_iff merging_up merging_down 0 _).mpr
    ((mergesEqually_iff hnewer (by simp)).mp hmerges)
  have hsame := hfree ([4] ++ List.replicate n 0) List.perm_append_comm
  obtain ⟨m, rfl⟩ := Nat.exists_eq_add_of_le' hn
  have hlast : mergeAll mergedPrice 0 (List.replicate (m + 2) 0 ++ [4]) = 2 := by
    change (List.replicate (m + 1) (0 : ℤ) ++ [4]).foldl mergedPrice 0 = 2
    rw [List.foldl_append, foldl_zeros_zero]
    rfl
  have hfirst : mergeAll mergedPrice 0 ([4] ++ List.replicate (m + 2) 0) ≤ 1 :=
    foldl_zeros_le (by decide) m
  omega

/-- One or two prices of a timestamp are always merged fairly and more are not, and a list of small
    prices is exactly if its ascending and its descending order weigh the same. -/
theorem merges_equally_exactly (n : ℕ) (hn : 1 ≤ n) :
    ((∀ history timestamp (prices : List ℤ), (∀ o ∈ history, o.timestamp < timestamp) →
      (∀ price ∈ prices, InI128 price) → prices.length = n →
        MergesEqually history timestamp prices) ↔ n ≤ 2) ∧
    ∀ history timestamp (prices : List ℤ), (∀ o ∈ history, o.timestamp < timestamp) →
      prices.length = n → Small prices → (MergesEqually history timestamp prices ↔
        weightedMean (ascending prices) = weightedMean (descending prices)) := by
  have hne : ∀ prices : List ℤ, prices.length = n → prices ≠ [] := by
    intro prices hlength hnil
    rw [hnil, List.length_nil] at hlength
    omega
  constructor
  · constructor
    · intro hall
      by_contra hmany
      have hlength : (List.replicate (n - 1) (0 : ℤ) ++ [4]).length = n := by
        rw [List.length_append, List.length_replicate, List.length_singleton]
        omega
      apply order_matters 0 (by omega : 2 ≤ n - 1)
      apply hall [] 0 _ (by simp) _ hlength
      intro price hprice
      rcases List.mem_append.mp hprice with hprice | hprice
      · rw [List.eq_of_mem_replicate hprice]
        decide
      · rw [List.mem_singleton.mp hprice]
        decide
    · intro hfew history timestamp prices hnewer _ hlength
      exact (mergesEqually_iff hnewer (hne prices hlength)).mpr (extremes_of_pair (by omega))
  · intro history timestamp prices hnewer hlength hsmall
    rw [mergesEqually_iff hnewer (hne prices hlength),
      mergeAll_small (hsmall.perm (ascending_perm prices)),
      mergeAll_small (hsmall.perm (descending_perm prices))]
    rfl

end Fairness

theorem merges_equally_demo : MergesEqually [⟨7, 1⟩] 2 [5, 6, 5] ∧
    stored 2 (recordAll 2 [⟨7, 1⟩] [5, 6, 5]) = [⟨5, 2⟩] := by
  constructor
  · have hsmall : Small [5, 6, 5] := by
      unfold Small
      decide
    exact ((merges_equally_exactly 3 (by decide)).2 [⟨7, 1⟩] 2 [5, 6, 5] (by decide) rfl
      hsmall).mpr (by decide)
  · rfl

/-- Three publishers submit in one block, in one order and in the other. -/
theorem merging_depends_on_order :
    ¬ MergesEqually [] 9 [100, 200, 300] ∧
    (runFeed {} (demoFeed [demoAdmin, demoAlice, demoBob] ++
      [demoInvoke 9 (.submitPrice demoAdmin ⟨100, by decide⟩),
        demoInvoke 9 (.submitPrice demoAlice ⟨200, by decide⟩),
        demoInvoke 9 (.submitPrice demoBob ⟨300, by decide⟩)])).history = [⟨225, 9⟩] ∧
    (runFeed {} (demoFeed [demoAdmin, demoAlice, demoBob] ++
      [demoInvoke 9 (.submitPrice demoBob ⟨300, by decide⟩),
        demoInvoke 9 (.submitPrice demoAlice ⟨200, by decide⟩),
        demoInvoke 9 (.submitPrice demoAdmin ⟨100, by decide⟩)])).history = [⟨175, 9⟩] := by
  refine ⟨?_, rfl, rfl⟩
  intro hmerges
  obtain ⟨price, hall, _⟩ := hmerges
  have hforth := hall [100, 200, 300] (List.Perm.refl _)
  have hback := hall [300, 200, 100] (by decide)
  rw [← hback] at hforth
  revert hforth
  decide

end SorobanKit.OraclePublishers
