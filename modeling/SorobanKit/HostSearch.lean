import Mathlib.Algebra.Order.Group.Nat
import Mathlib.Data.Set.Monotone
import Mathlib.Order.Interval.Set.Basic

set_option autoImplicit false

/-!
# Binary search over a window of indices

The loop `while lo < hi` over the half-open window `[lo, hi)` of a sequence of keys, with the
midpoint `lo + (hi - lo) / 2`. A hit is always right; that nothing is missed needs keys in order,
and keys that are each found in their own place are in strict order.
-/
namespace SorobanKit.HostSearch

variable {κ : Type} [LinearOrder κ]

def search (key : ℕ → κ) (target : κ) (lo hi : ℕ) : Option ℕ :=
  if lo < hi then
    let mid := lo + (hi - lo) / 2
    if key mid < target then search key target (mid + 1) hi
    else if target < key mid then search key target lo mid
    else some mid
  else none
termination_by hi - lo

variable {key : ℕ → κ} {target : κ} {lo hi : ℕ}

theorem search_empty (h : hi ≤ lo) : search key target lo hi = none := by
  rw [search, if_neg (by omega)]

theorem search_below (hwindow : lo < hi) (hmid : key (lo + (hi - lo) / 2) < target) :
    search key target lo hi = search key target (lo + (hi - lo) / 2 + 1) hi := by
  rw [search, if_pos hwindow]
  exact if_pos hmid

theorem search_above (hwindow : lo < hi) (hmid : target < key (lo + (hi - lo) / 2)) :
    search key target lo hi = search key target lo (lo + (hi - lo) / 2) := by
  rw [search, if_pos hwindow]
  exact (if_neg hmid.not_gt).trans (if_pos hmid)

theorem search_hit (hwindow : lo < hi) (hmid : key (lo + (hi - lo) / 2) = target) :
    search key target lo hi = some (lo + (hi - lo) / 2) := by
  rw [search, if_pos hwindow]
  exact (if_neg (by rw [hmid]; exact lt_irrefl _)).trans (if_neg (by rw [hmid]; exact lt_irrefl _))

/-- A hit lies in the window and holds the target, whatever the order of the keys. -/
theorem search_sound {i : ℕ} (h : search key target lo hi = some i) :
    lo ≤ i ∧ i < hi ∧ key i = target := by
  fun_induction search key target lo hi with
  | case1 lo hi hwindow mid hmid ih =>
    obtain ⟨hlo, hhi, hkey⟩ := ih h
    exact ⟨by omega, hhi, hkey⟩
  | case2 lo hi hwindow mid hmid habove ih =>
    obtain ⟨hlo, hhi, hkey⟩ := ih h
    exact ⟨hlo, by omega, hkey⟩
  | case3 lo hi hwindow mid hbelow habove =>
    rw [Option.some.injEq] at h
    subst h
    exact ⟨by omega, by omega, le_antisymm (not_lt.mp habove) (not_lt.mp hbelow)⟩
  | case4 => cases h

/-- Keys in order: what the window holds is found. -/
theorem search_complete (hsorted : MonotoneOn key (Set.Ico lo hi)) {k : ℕ} (hlo : lo ≤ k)
    (hhi : k < hi) (hkey : key k = target) : ∃ i, search key target lo hi = some i := by
  fun_induction search key target lo hi with
  | case1 lo hi hwindow mid hmid ih =>
    -- everything up to `mid` is below the target
    have hright : mid < k := by
      by_contra hle
      have hmono := hsorted ⟨hlo, hhi⟩ ⟨by omega, by omega⟩ (not_lt.mp hle)
      rw [hkey] at hmono
      exact absurd hmid (not_lt.mpr hmono)
    exact ih (hsorted.mono (Set.Ico_subset_Ico_left (by omega))) hright hhi
  | case2 lo hi hwindow mid hmid habove ih =>
    have hleft : k < mid := by
      by_contra hle
      have hmono := hsorted ⟨by omega, by omega⟩ ⟨hlo, hhi⟩ (not_lt.mp hle)
      rw [hkey] at hmono
      exact absurd habove (not_lt.mpr hmono)
    exact ih (hsorted.mono (Set.Ico_subset_Ico_right (by omega))) hlo hleft
  | case3 lo hi hwindow mid => exact ⟨mid, rfl⟩
  | case4 lo hi hwindow => omega

/-- Every index of the window is found under its own key. -/
def Locates (key : ℕ → κ) (lo hi : ℕ) : Prop :=
  ∀ i ∈ Set.Ico lo hi, search key (key i) lo hi = some i

/-- If the search locates everything, the midpoint separates the window. -/
theorem Locates.left (h : Locates key lo hi) {i : ℕ} (hlo : lo ≤ i)
    (hmid : i < lo + (hi - lo) / 2) :
    key i < key (lo + (hi - lo) / 2) ∧
      search key (key i) lo (lo + (hi - lo) / 2) = some i := by
  have hwindow : lo < hi := by omega
  have hfound := h i ⟨hlo, by omega⟩
  rcases lt_trichotomy (key (lo + (hi - lo) / 2)) (key i) with hbelow | heq | habove
  · rw [search_below hwindow hbelow] at hfound
    have hright := (search_sound hfound).1
    omega
  · rw [search_hit hwindow heq, Option.some.injEq] at hfound
    omega
  · rw [search_above hwindow habove] at hfound
    exact ⟨habove, hfound⟩

theorem Locates.right (h : Locates key lo hi) {i : ℕ} (hmid : lo + (hi - lo) / 2 < i)
    (hhi : i < hi) :
    key (lo + (hi - lo) / 2) < key i ∧
      search key (key i) (lo + (hi - lo) / 2 + 1) hi = some i := by
  have hwindow : lo < hi := by omega
  have hfound := h i ⟨by omega, hhi⟩
  rcases lt_trichotomy (key (lo + (hi - lo) / 2)) (key i) with hbelow | heq | habove
  · rw [search_below hwindow hbelow] at hfound
    exact ⟨hbelow, hfound⟩
  · rw [search_hit hwindow heq, Option.some.injEq] at hfound
    omega
  · rw [search_above hwindow habove] at hfound
    have hleft := (search_sound hfound).2.1
    omega

theorem strictMonoOn_of_locates (h : Locates key lo hi) : StrictMonoOn key (Set.Ico lo hi) := by
  induction hsize : hi - lo using Nat.strongRecOn generalizing lo hi with
  | _ n ih =>
    rintro i ⟨hi₁, hi₂⟩ j ⟨hj₁, hj₂⟩ hij
    have hleft : Locates key lo (lo + (hi - lo) / 2) :=
      fun k hk => (h.left hk.1 hk.2).2
    have hright : Locates key (lo + (hi - lo) / 2 + 1) hi :=
      fun k hk => (h.right (by have := hk.1; omega) hk.2).2
    rcases Nat.lt_trichotomy j (lo + (hi - lo) / 2) with hj | rfl | hj
    · exact ih _ (by omega) hleft rfl ⟨hi₁, by omega⟩ ⟨hj₁, hj⟩ hij
    · exact (h.left hi₁ hij).1
    · rcases Nat.lt_trichotomy i (lo + (hi - lo) / 2) with hi' | rfl | hi'
      · exact (h.left hi₁ hi').1.trans (h.right hj hj₂).1
      · exact (h.right hij hj₂).1
      · exact ih _ (by omega) hright rfl ⟨by omega, hi₂⟩ ⟨by omega, hj₂⟩ hij

end SorobanKit.HostSearch
