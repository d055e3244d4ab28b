import Mathlib.Logic.Function.Basic
import Mathlib.Order.Lattice

set_option autoImplicit false

/-!
# A maximum kept next to a map

`Tops f top` says that `top` is the greatest value of a partial map `f`, and nothing where `f` has no
values. Storing a value raises it; a value that is taken away or made smaller leaves it as it is
only while some other key has as much.
-/
namespace SorobanKit.HostMaxima

variable {κ α : Type} [LinearOrder α]

structure Tops (f : κ → Option α) (top : Option α) : Prop where
  bounds : ∀ k v, f k = some v → ∃ h, top = some h ∧ v ≤ h
  attained : ∀ h, top = some h → ∃ k, f k = some h

/-- Some other key has at least `v`. -/
def Beaten (f : κ → Option α) (k : κ) (v : α) : Prop := ∃ j w, j ≠ k ∧ f j = some w ∧ v ≤ w

variable {f g : κ → Option α} {top : Option α} {k : κ} {v : α}

theorem Beaten.mono {w : α} (hvw : v ≤ w) (h : Beaten f k w) : Beaten f k v := by
  obtain ⟨j, u, hne, hj, hle⟩ := h
  exact ⟨j, u, hne, hj, hvw.trans hle⟩

theorem tops_none (h : ∀ k, f k = none) : Tops f none := by
  constructor
  · intro k v hk
    rw [h k] at hk
    cases hk
  · intro h hnone
    cases hnone

/-- Whether a value lies under some value of the map is read off the maximum. -/
theorem Tops.exists_iff (hf : Tops f top) {P : α → Prop} (hmono : ∀ v w, v ≤ w → P v → P w) :
    (∃ k v, f k = some v ∧ P v) ↔ ∃ h, top = some h ∧ P h := by
  constructor
  · rintro ⟨k, v, hk, hv⟩
    obtain ⟨h, htop, hle⟩ := hf.bounds k v hk
    exact ⟨h, htop, hmono v h hle hv⟩
  · rintro ⟨h, htop, hh⟩
    obtain ⟨k, hk⟩ := hf.attained h htop
    exact ⟨k, h, hk, hh⟩

theorem Tops.attained_of_beaten (hf : Tops f top) {h : α} (htop : top = some h)
    (hk : Beaten f k h) : ∃ j, j ≠ k ∧ f j = some h := by
  obtain ⟨j, w, hne, hj, hle⟩ := hk
  obtain ⟨h', htop', hw⟩ := hf.bounds j w hj
  rw [htop] at htop'
  cases htop'
  have heq : w = h := le_antisymm hw hle
  rw [heq] at hj
  exact ⟨j, hne, hj⟩

/-- A change at `k` keeps the maximum when what `k` had, and what it has now, is beaten. -/
theorem Tops.change (hf : Tops f top) (hsame : ∀ j, j ≠ k → g j = f j)
    (hold : ∀ v, f k = some v → Beaten f k v) (hnew : ∀ v, g k = some v → Beaten f k v) :
    Tops g top := by
  constructor
  · intro j v hj
    by_cases hjk : j = k
    · subst hjk
      obtain ⟨i, w, hne, hi, hle⟩ := hnew v hj
      obtain ⟨h, htop, hw⟩ := hf.bounds i w hi
      exact ⟨h, htop, hle.trans hw⟩
    · rw [hsame j hjk] at hj
      exact hf.bounds j v hj
  · intro h htop
    obtain ⟨j, hj⟩ := hf.attained h htop
    by_cases hjk : j = k
    · subst hjk
      obtain ⟨i, hne, hi⟩ := hf.attained_of_beaten htop (hold h hj)
      exact ⟨i, (hsame i hne).trans hi⟩
    · exact ⟨j, (hsame j hjk).trans hj⟩

/-- A stored value raises the maximum to at least itself. -/
theorem Tops.raise (hf : Tops f top) (hsame : ∀ j, j ≠ k → g j = f j) (hk : g k = some v)
    (hold : ∀ p, f k = some p → p ≤ v ∨ Beaten f k p) :
    Tops g (some (top.elim v (max · v))) := by
  have hself : v ≤ top.elim v (max · v) := by
    cases top with
    | none => exact le_refl v
    | some h => exact le_max_right h v
  constructor
  · intro j w hj
    refine ⟨_, rfl, ?_⟩
    by_cases hjk : j = k
    · subst hjk
      rw [hk] at hj
      cases hj
      exact hself
    · rw [hsame j hjk] at hj
      obtain ⟨h, rfl, hle⟩ := hf.bounds j w hj
      exact hle.trans (le_max_left h v)
  · intro h htop
    cases htop
    cases top with
    | none => exact ⟨k, hk⟩
    | some h =>
      change ∃ j, g j = some (max h v)
      rcases le_total h v with hle | hle
      · rw [max_eq_right hle]
        exact ⟨k, hk⟩
      · rw [max_eq_left hle]
        obtain ⟨j, hj⟩ := hf.attained h rfl
        by_cases hjk : j = k
        · subst hjk
          rcases hold h hj with hpv | hbeaten
          · rw [le_antisymm hpv hle]
            exact ⟨j, hk⟩
          · obtain ⟨i, hne, hi⟩ := hf.attained_of_beaten rfl hbeaten
            exact ⟨i, (hsame i hne).trans hi⟩
        · exact ⟨j, (hsame j hjk).trans hj⟩

end SorobanKit.HostMaxima
