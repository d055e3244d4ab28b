import Mathlib.Algebra.Order.Group.Nat
import Mathlib.Data.List.Basic

set_option autoImplicit false

/-!
# Windows that open with the first event

Events are counted from the first one on until the window has passed, and then from the first one
after it. Every window holds a bounded number of events. A span of the same length that does not
start with a window meets two of them, but misses the event the first one opened with.
-/
namespace SorobanKit.HostWindows

/-- The events from `lo` on and before `hi`. -/
def countIn (lo hi : ℕ) (times : List ℕ) : ℕ := times.countP fun t => lo ≤ t ∧ t < hi

section Counts
variable {lo mid hi : ℕ} {times : List ℕ}

theorem countIn_snoc (lo hi : ℕ) (times : List ℕ) (t : ℕ) :
    countIn lo hi (times ++ [t]) = countIn lo hi times + if lo ≤ t ∧ t < hi then 1 else 0 := by
  unfold countIn
  rw [List.countP_append, List.countP_singleton]
  simp only [decide_eq_true_eq]

theorem countIn_mono {lo' hi' : ℕ} (hlo : lo' ≤ lo) (hhi : hi ≤ hi') :
    countIn lo hi times ≤ countIn lo' hi' times := by
  apply List.countP_mono_left
  intro t _ ht
  rw [decide_eq_true_eq] at ht ⊢
  omega

theorem countIn_split (hlo : lo ≤ mid) (hhi : mid ≤ hi) :
    countIn lo hi times = countIn lo mid times + countIn mid hi times := by
  induction times with
  | nil => rfl
  | cons t times ih =>
    unfold countIn at ih ⊢
    simp only [List.countP_cons, decide_eq_true_eq]
    split_ifs <;> omega

theorem countIn_eq_zero (h : ∀ t ∈ times, ¬ (lo ≤ t ∧ t < hi)) : countIn lo hi times = 0 := by
  unfold countIn
  rw [List.countP_eq_zero]
  intro t ht
  rw [decide_eq_true_eq]
  exact h t ht

end Counts

/-- What the current window knows about all events so far: it opened at `start` and has seen `count`
    of at most `most`. -/
structure Counted (window most : ℕ) (times : List ℕ) (start count : ℕ) : Prop where
  started : start ∈ times
  last : ∀ t ∈ times, t < start + window
  count_eq : countIn start (start + window) times = count
  later : countIn (start + 1) (start + window) times < count
  earlier : ∀ first, start < first + window → countIn first start times < most
  spread : ∀ first, countIn first (first + window) times < 2 * most
  count_le : count ≤ most

section Counters
variable {window most now start count : ℕ} {times : List ℕ}

theorem counted_first (hwindow : 1 ≤ window) (hmost : 1 ≤ most) (now : ℕ) :
    Counted window most [now] now 1 := by
  have hone : ∀ lo hi, countIn lo hi [now] ≤ 1 := fun lo hi => List.countP_le_length
  have hnone : ∀ lo hi, (now < lo ∨ hi ≤ now) → countIn lo hi [now] = 0 := by
    intro lo hi hout
    apply countIn_eq_zero
    intro t ht
    rw [List.mem_singleton.mp ht]
    omega
  constructor
  · exact List.mem_singleton_self now
  · intro t ht
    rw [List.mem_singleton.mp ht]
    omega
  · unfold countIn
    rw [List.countP_singleton, if_pos (by rw [decide_eq_true_eq]; omega)]
  · rw [hnone _ _ (.inl (Nat.lt_succ_self now))]
    exact Nat.one_pos
  · intro first _
    rw [hnone _ _ (.inr (Nat.le_refl now))]
    exact hmost
  · intro first
    have hle := hone first (first + window)
    omega
  · exact hmost

theorem Counted.countIn_le (h : Counted window most times start count) (lo hi : ℕ) :
    countIn lo hi times ≤ countIn lo (start + window) times := by
  apply List.countP_mono_left
  intro t ht hin
  rw [decide_eq_true_eq] at hin ⊢
  exact ⟨hin.1, h.last t ht⟩

theorem Counted.since (h : Counted window most times start count) {lo : ℕ} (hlo : start ≤ lo)
    (hi : ℕ) : countIn lo hi times ≤ count := by
  rw [← h.count_eq]
  exact (h.countIn_le lo hi).trans (countIn_mono hlo (Nat.le_refl _))

theorem Counted.after (h : Counted window most times start count) {lo : ℕ} (hlo : start < lo)
    (hi : ℕ) : countIn lo hi times < count :=
  ((h.countIn_le lo hi).trans (countIn_mono hlo (Nat.le_refl _))).trans_lt h.later

/-- One more event in the current window. -/
theorem Counted.next (h : Counted window most times start count) (hstart : start ≤ now)
    (hopen : now < start + window) (hless : count < most) :
    Counted window most (times ++ [now]) start (count + 1) := by
  have hcount := h.count_eq
  have hlater := h.later
  constructor
  · exact List.mem_append_left _ h.started
  · intro t ht
    rcases List.mem_append.mp ht with ht | ht
    · exact h.last t ht
    · rw [List.mem_singleton.mp ht]
      exact hopen
  · rw [countIn_snoc, if_pos ⟨hstart, hopen⟩, hcount]
  · rw [countIn_snoc]
    split <;> omega
  · intro first hfirst
    rw [countIn_snoc, if_neg (by omega)]
    exact h.earlier first hfirst
  · intro first
    rw [countIn_snoc]
    by_cases hin : first ≤ now ∧ now < first + window
    · rw [if_pos hin]
      by_cases hbefore : first ≤ start
      · have hold := h.earlier first (by omega)
        have hsplit : countIn first (first + window) times =
            countIn first start times + countIn start (first + window) times :=
          countIn_split hbefore (by omega)
        have hnew := h.since (Nat.le_refl start) (first + window)
        omega
      · have hnew := h.since (Nat.le_of_not_ge hbefore) (first + window)
        omega
    · rw [if_neg hin]
      exact h.spread first
  · exact hless

/-- An event after the window, which opens the next one. -/
theorem Counted.restart (h : Counted window most times start count) (hwindow : 1 ≤ window)
    (hmost : 1 ≤ most) (hpast : start + window ≤ now) :
    Counted window most (times ++ [now]) now 1 := by
  have hcount := h.count_le
  have hnone : ∀ lo hi, now ≤ lo → countIn lo hi times = 0 := by
    intro lo hi hlo
    apply countIn_eq_zero
    intro t ht
    have hlast := h.last t ht
    omega
  constructor
  · exact List.mem_append_right _ (List.mem_singleton_self now)
  · intro t ht
    rcases List.mem_append.mp ht with ht | ht
    · have hlast := h.last t ht
      omega
    · rw [List.mem_singleton.mp ht]
      omega
  · rw [countIn_snoc, hnone _ _ (Nat.le_refl now), if_pos (by omega)]
  · rw [countIn_snoc, hnone _ _ (Nat.le_succ now), if_neg (by omega)]
    exact Nat.one_pos
  · intro first hfirst
    have hold := h.after (show start < first by omega) now
    rw [countIn_snoc, if_neg (by omega)]
    omega
  · intro first
    rw [countIn_snoc]
    by_cases hin : first ≤ now ∧ now < first + window
    · have hold := h.after (show start < first by omega) (first + window)
      rw [if_pos hin]
      omega
    · rw [if_neg hin]
      exact h.spread first
  · exact hmost

end Counters
end SorobanKit.HostWindows
