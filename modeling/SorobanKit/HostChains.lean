import Mathlib.Data.Nat.Find
import Mathlib.Data.Option.Basic

set_option autoImplicit false

/-!
# Chains of a partial successor

`next` sends some elements on to another one. Changing the successor of one element closes a
cycle exactly when the element was reached from its new successor before.
-/
namespace SorobanKit.HostChains

variable {α : Type} {next next' : α → Option α} {a b : α}

def follow (next : α → Option α) : ℕ → α → Option α
  | 0, a => some a
  | n + 1, a => (next a).bind (follow next n)

theorem follow_succ (n : ℕ) (a : α) : follow next (n + 1) a = (next a).bind (follow next n) := rfl

theorem follow_add (m n : ℕ) (a : α) :
    follow next (m + n) a = (follow next m a).bind (follow next n) := by
  induction m generalizing a with
  | zero => simp [follow]
  | succ m ih =>
    rw [Nat.succ_add, follow_succ, follow_succ, Option.bind_assoc]
    exact congrArg (next a).bind (funext ih)

/-- No element comes after itself. -/
def Acyclic (next : α → Option α) : Prop := ∀ a n, follow next (n + 1) a ≠ some a

theorem acyclic_none : Acyclic (fun _ : α => none) := by
  intro a n h
  cases h

theorem follow_congr (hoff : ∀ x, x ≠ a → next' x = next x) {n : ℕ}
    (hfirst : ∀ k < n, follow next k b ≠ some a) : follow next' n b = follow next n b := by
  induction n generalizing b with
  | zero => rfl
  | succ n ih =>
    have hb : b ≠ a := by
      intro heq
      exact hfirst 0 (by omega) (congrArg some heq)
    rw [follow_succ, follow_succ, hoff b hb]
    cases hnext : next b with
    | none => rfl
    | some c =>
      apply ih
      intro k hk
      have hlater := hfirst (k + 1) (by omega)
      rwa [follow_succ, hnext] at hlater

theorem reaches_congr (hoff : ∀ x, x ≠ a → next' x = next x)
    (h : ∃ n, follow next n b = some a) : ∃ n, follow next' n b = some a := by
  classical
  refine ⟨Nat.find h, ?_⟩
  rw [follow_congr hoff fun k hk => Nat.find_min h hk]
  exact Nat.find_spec h

theorem reaches_iff (hoff : ∀ x, x ≠ a → next' x = next x) :
    (∃ n, follow next' n b = some a) ↔ ∃ n, follow next n b = some a :=
  ⟨reaches_congr fun x hx => (hoff x hx).symm, reaches_congr hoff⟩

/-- The new successor closes a cycle through the element exactly when the element was reached
    from it. -/
theorem closes_iff (hoff : ∀ x, x ≠ a → next' x = next x) (hnew : next' a = some b) :
    (∃ n, follow next' (n + 1) a = some a) ↔ ∃ n, follow next n b = some a := by
  rw [← reaches_iff hoff]
  simp only [follow_succ, hnew, Option.bind_some]

/-- Every cycle of the changed successor goes through the element. -/
theorem Acyclic.redirect (h : Acyclic next) (hoff : ∀ x, x ≠ a → next' x = next x)
    (hopen : ∀ n, follow next' (n + 1) a ≠ some a) : Acyclic next' := by
  intro x n hcycle
  by_cases hvisits : ∃ k, k < n + 1 ∧ follow next' k x = some a
  · -- the same cycle, started at the element
    obtain ⟨k, hk, hvisit⟩ := hvisits
    have hsplit : follow next' (k + (n + 1 - k)) x =
        (follow next' k x).bind (follow next' (n + 1 - k)) := follow_add k (n + 1 - k) x
    rw [show k + (n + 1 - k) = n + 1 by omega, hcycle, hvisit, Option.bind_some] at hsplit
    have hround : follow next' (n + 1 - k + k) a =
        (follow next' (n + 1 - k) a).bind (follow next' k) := follow_add (n + 1 - k) k a
    rw [← hsplit, Option.bind_some, hvisit, show n + 1 - k + k = n + 1 by omega] at hround
    exact hopen n hround
  · push Not at hvisits
    have hsame : follow next (n + 1) x = follow next' (n + 1) x :=
      follow_congr (fun y hy => (hoff y hy).symm) hvisits
    exact h x n (hsame.trans hcycle)

/-- Taking successors away closes no cycle. -/
theorem Acyclic.restrict (h : Acyclic next) (hless : ∀ x y, next' x = some y → next x = some y) :
    Acyclic next' := by
  have hfollow : ∀ n x y, follow next' n x = some y → follow next n x = some y := by
    intro n
    induction n with
    | zero => exact fun _ _ hy => hy
    | succ n ih =>
      intro x y hy
      rw [follow_succ, Option.bind_eq_some_iff] at hy ⊢
      obtain ⟨z, hz, hy⟩ := hy
      exact ⟨z, hless x z hz, ih z y hy⟩
  intro a n hcycle
  exact h a n (hfollow (n + 1) a a hcycle)

end SorobanKit.HostChains
