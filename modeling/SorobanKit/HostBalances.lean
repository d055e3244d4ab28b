import Mathlib.Algebra.BigOperators.Group.Finset.Basic
import Mathlib.Algebra.BigOperators.Group.Multiset.Basic
import Mathlib.Algebra.Order.BigOperators.Group.Multiset
import Mathlib.Data.Finmap
import Mathlib.Data.Int.Basic
import Mathlib.Tactic.Abel

set_option autoImplicit false

/-!
# Integer-valued storage maps and the sum of their entries

A persistent map from keys to integers holds finitely many entries, so the entries
have a sum. `entry m k` is the value read with zero as the default, and one write
moves the sum by the difference of the two values.
-/
namespace SorobanKit.HostBalances

variable {κ : Type} [DecidableEq κ]

abbrev Balances (κ : Type) := Finmap (fun _ : κ => ℤ)

/-- `get(key).unwrap_or(0)` -/
def entry (m : Balances κ) (k : κ) : ℤ := (m.lookup k).getD 0

/-- The sum of all entries. -/
def total (m : Balances κ) : ℤ := (m.entries.map Sigma.snd).sum

def NonnegEntries (m : Balances κ) : Prop := ∀ k v, m.lookup k = some v → 0 ≤ v

@[simp] theorem entry_insert_self (m : Balances κ) (k : κ) (v : ℤ) :
    entry (m.insert k v) k = v := by
  simp [entry]

theorem entry_insert_of_ne (m : Balances κ) {k j : κ} (v : ℤ) (h : j ≠ k) :
    entry (m.insert k v) j = entry m j := by
  simp [entry, Finmap.lookup_insert_of_ne m h]

section Records
variable {β : Type}

theorem lookup_insert_ite (m : Finmap (fun _ : κ => β)) (k j : κ) (v : β) :
    (m.insert k v).lookup j = if j = k then some v else m.lookup j := by
  split
  · next hj => rw [hj, Finmap.lookup_insert]
  · next hj => rw [Finmap.lookup_insert_of_ne _ hj]

theorem lookup_erase_ite (m : Finmap (fun _ : κ => β)) (k j : κ) :
    (m.erase k).lookup j = if j = k then none else m.lookup j := by
  split
  · next hj => rw [hj, Finmap.lookup_erase]
  · next hj => rw [Finmap.lookup_erase_ne hj]

/-- What is left after an erase was there before, under another key. -/
theorem of_lookup_erase {m : Finmap (fun _ : κ => β)} {k j : κ} {v : β}
    (h : (m.erase k).lookup j = some v) : j ≠ k ∧ m.lookup j = some v := by
  rw [lookup_erase_ite] at h
  split at h
  · cases h
  · next hne => exact ⟨hne, h⟩

/-- The sum of what `f` reads from the entries. -/
def sumBy (f : κ → β → ℤ) (m : Finmap (fun _ : κ => β)) : ℤ :=
  (m.entries.map fun e => f e.1 e.2).sum

/-- What one key adds to the sum. -/
def part (f : κ → β → ℤ) (m : Finmap (fun _ : κ => β)) (k : κ) : ℤ :=
  ((m.lookup k).map (f k)).getD 0

omit [DecidableEq κ] in
@[simp] theorem sumBy_empty (f : κ → β → ℤ) : sumBy f ∅ = 0 := rfl

theorem part_of_lookup {f : κ → β → ℤ} {m : Finmap (fun _ : κ => β)} {k : κ} {v : β}
    (h : m.lookup k = some v) : part f m k = f k v := by
  rw [part, h, Option.map_some, Option.getD_some]

theorem part_of_none {f : κ → β → ℤ} {m : Finmap (fun _ : κ => β)} {k : κ}
    (h : m.lookup k = none) : part f m k = 0 := by
  rw [part, h, Option.map_none, Option.getD_none]

theorem sumBy_insert_of_notMem (f : κ → β → ℤ) {m : Finmap (fun _ : κ => β)} {k : κ} (v : β)
    (h : k ∉ m) : sumBy f (m.insert k v) = f k v + sumBy f m := by
  simp [sumBy, Finmap.entries_insert_of_notMem h]

theorem sumBy_eq_erase (f : κ → β → ℤ) (m : Finmap (fun _ : κ => β)) (k : κ) :
    sumBy f m = part f m k + sumBy f (m.erase k) := by
  cases hk : m.lookup k with
  | some v =>
    have hm : (m.erase k).insert k v = m := by
      apply Finmap.ext_lookup
      intro j
      by_cases hj : j = k
      · rw [hj, Finmap.lookup_insert, hk]
      · rw [Finmap.lookup_insert_of_ne _ hj, Finmap.lookup_erase_ne hj]
    calc
      sumBy f m = sumBy f ((m.erase k).insert k v) := by rw [hm]
      _ = f k v + sumBy f (m.erase k) := sumBy_insert_of_notMem f v Finmap.notMem_erase_self
      _ = part f m k + sumBy f (m.erase k) := by rw [part_of_lookup hk]
  | none =>
    have hm : m.erase k = m := by
      apply Finmap.ext_lookup
      intro j
      by_cases hj : j = k
      · rw [hj, Finmap.lookup_erase, hk]
      · rw [Finmap.lookup_erase_ne hj]
    rw [hm, part_of_none hk, zero_add]

theorem sumBy_erase (f : κ → β → ℤ) (m : Finmap (fun _ : κ => β)) (k : κ) :
    sumBy f (m.erase k) = sumBy f m - part f m k := by
  rw [sumBy_eq_erase f m k]
  abel

theorem sumBy_insert (f : κ → β → ℤ) (m : Finmap (fun _ : κ => β)) (k : κ) (v : β) :
    sumBy f (m.insert k v) = sumBy f m - part f m k + f k v := by
  have he : (m.insert k v).erase k = m.erase k := by
    apply Finmap.ext_lookup
    intro j
    by_cases hj : j = k
    · rw [hj, Finmap.lookup_erase, Finmap.lookup_erase]
    · rw [Finmap.lookup_erase_ne hj, Finmap.lookup_erase_ne hj, Finmap.lookup_insert_of_ne _ hj]
  have hnew := sumBy_eq_erase f (m.insert k v) k
  rw [he, part_of_lookup (Finmap.lookup_insert m), sumBy_erase] at hnew
  rw [hnew]
  abel

theorem sumBy_congr {f g : κ → β → ℤ} {m : Finmap (fun _ : κ => β)}
    (h : ∀ k v, m.lookup k = some v → f k v = g k v) : sumBy f m = sumBy g m := by
  unfold sumBy
  rw [Multiset.map_congr rfl]
  rintro ⟨k, v⟩ he
  exact h k v (Finmap.lookup_eq_some_iff.mpr he)

theorem sumBy_eq_zero {f : κ → β → ℤ} {m : Finmap (fun _ : κ => β)}
    (h : ∀ k v, m.lookup k = some v → f k v = 0) : sumBy f m = 0 := by
  rw [sumBy_congr h, sumBy]
  exact Multiset.sum_eq_zero fun x hx => (Multiset.mem_map.mp hx).elim fun _ he => he.2.symm

theorem sumBy_nonneg {f : κ → β → ℤ} {m : Finmap (fun _ : κ => β)}
    (h : ∀ k v, m.lookup k = some v → 0 ≤ f k v) : 0 ≤ sumBy f m := by
  apply Multiset.sum_nonneg
  intro x hx
  obtain ⟨⟨k, v⟩, he, rfl⟩ := Multiset.mem_map.mp hx
  exact h k v (Finmap.lookup_eq_some_iff.mpr he)

/-- What one key adds is no more than the sum, when nothing is negative. -/
theorem part_le_sumBy {f : κ → β → ℤ} {m : Finmap (fun _ : κ => β)}
    (h : ∀ k v, m.lookup k = some v → 0 ≤ f k v) (k : κ) : part f m k ≤ sumBy f m := by
  have hrest : 0 ≤ sumBy f (m.erase k) :=
    sumBy_nonneg fun j v hj => h j v (of_lookup_erase hj).2
  rw [sumBy_erase] at hrest
  omega

/-- A sum that looks at one key only. -/
theorem sumBy_single (f : κ → β → ℤ) (m : Finmap (fun _ : κ => β)) (k : κ) :
    sumBy (fun j v => if j = k then f j v else 0) m = part f m k := by
  have hrest : sumBy (fun j v => if j = k then f j v else 0) (m.erase k) = 0 :=
    sumBy_eq_zero fun j v hj => if_neg (of_lookup_erase hj).1
  rw [sumBy_eq_erase _ m k, hrest, add_zero]
  simp only [part, if_true]

end Records

/-- Removing a key takes its value out of the sum. -/
theorem total_erase (m : Balances κ) (k : κ) : total (m.erase k) = total m - entry m k := by
  have h := sumBy_erase (fun _ v => v) m k
  rw [part, Option.map_id'] at h
  exact h

theorem total_insert (m : Balances κ) (k : κ) (v : ℤ) :
    total (m.insert k v) = total m - entry m k + v := by
  have h := sumBy_insert (fun _ v => v) m k v
  rw [part, Option.map_id'] at h
  exact h

/-- One entry grows by `v`. -/
def credit (m : Balances κ) (k : κ) (v : ℤ) : Balances κ := m.insert k (entry m k + v)

theorem total_credit (m : Balances κ) (k : κ) (v : ℤ) : total (credit m k v) = total m + v := by
  rw [credit, total_insert]
  abel

theorem entry_credit (m : Balances κ) (k j : κ) (v : ℤ) :
    entry (credit m k v) j = entry m j + if j = k then v else 0 := by
  by_cases h : j = k
  · rw [h, credit, entry_insert_self, if_pos rfl]
  · rw [credit, entry_insert_of_ne _ _ h, if_neg h, add_zero]

/-- The same where the new entry is written out. -/
theorem entry_insert_add (m : Balances κ) (k j : κ) (v : ℤ) :
    entry (m.insert k (entry m k + v)) j = entry m j + if k = j then v else 0 := by
  change entry (credit m k v) j = _
  rw [entry_credit]
  simp only [eq_comm]

/-- Several entries grow, one after the other. -/
def creditAll (m : Balances κ) (xs : List (κ × ℤ)) : Balances κ :=
  xs.foldl (fun m x => credit m x.1 x.2) m

theorem total_creditAll (m : Balances κ) (xs : List (κ × ℤ)) :
    total (creditAll m xs) = total m + (xs.map Prod.snd).sum := by
  induction xs generalizing m with
  | nil => simp [creditAll]
  | cons x xs ih =>
    change total (creditAll (credit m x.1 x.2) xs) = _
    rw [ih, total_credit, List.map_cons, List.sum_cons, add_assoc]

/-- A map that keeps no zero entries. -/
def store (m : Balances κ) (k : κ) (v : ℤ) : Balances κ := if v = 0 then m.erase k else m.insert k v

theorem total_store (m : Balances κ) (k : κ) (v : ℤ) :
    total (store m k v) = total m - entry m k + v := by
  unfold store
  split
  · next hv => rw [total_erase, hv, add_zero]
  · exact total_insert m k v

@[simp] theorem entry_erase_self (m : Balances κ) (k : κ) : entry (m.erase k) k = 0 := by
  simp [entry]

theorem entry_erase_of_ne (m : Balances κ) {k j : κ} (h : j ≠ k) :
    entry (m.erase k) j = entry m j := by
  simp [entry, Finmap.lookup_erase_ne h]

theorem entry_store (m : Balances κ) (k j : κ) (v : ℤ) :
    entry (store m k v) j = if j = k then v else entry m j := by
  unfold store
  by_cases hj : j = k
  · subst hj
    split
    · next hv => rw [entry_erase_self, if_pos rfl, hv]
    · rw [entry_insert_self, if_pos rfl]
  · rw [if_neg hj]
    split
    · exact entry_erase_of_ne m hj
    · exact entry_insert_of_ne m v hj

theorem nonneg_empty : NonnegEntries (∅ : Balances κ) := by
  intro k v h
  simp at h

theorem NonnegEntries.insert {m : Balances κ} (hm : NonnegEntries m) {k : κ} {v : ℤ}
    (hv : 0 ≤ v) : NonnegEntries (m.insert k v) := by
  intro j w hw
  by_cases hj : j = k
  · subst hj
    rw [Finmap.lookup_insert] at hw
    cases hw
    exact hv
  · rw [Finmap.lookup_insert_of_ne _ hj] at hw
    exact hm j w hw

theorem NonnegEntries.erase {m : Balances κ} (hm : NonnegEntries m) (k : κ) :
    NonnegEntries (m.erase k) := fun j w hw => hm j w (of_lookup_erase hw).2

theorem NonnegEntries.store {m : Balances κ} (hm : NonnegEntries m) {k : κ} {v : ℤ}
    (hv : 0 ≤ v) : NonnegEntries (store m k v) := by
  unfold HostBalances.store
  split
  · exact hm.erase k
  · exact hm.insert hv

theorem NonnegEntries.entry_nonneg {m : Balances κ} (hm : NonnegEntries m) (k : κ) :
    0 ≤ entry m k := by
  unfold entry
  cases h : m.lookup k with
  | none => simp
  | some v => exact hm k v h

theorem NonnegEntries.total_nonneg {m : Balances κ} (hm : NonnegEntries m) : 0 ≤ total m := by
  apply Multiset.sum_nonneg
  intro v hv
  obtain ⟨⟨k, w⟩, hmem, rfl⟩ := Multiset.mem_map.mp hv
  exact hm k w (Finmap.lookup_eq_some_iff.mpr hmem)

theorem NonnegEntries.credit {m : Balances κ} (hm : NonnegEntries m) {k : κ} {v : ℤ}
    (hv : 0 ≤ entry m k + v) : NonnegEntries (credit m k v) := hm.insert hv

theorem NonnegEntries.creditAll {m : Balances κ} (hm : NonnegEntries m) {xs : List (κ × ℤ)}
    (hxs : ∀ x ∈ xs, 0 ≤ x.2) : NonnegEntries (creditAll m xs) := by
  induction xs generalizing m with
  | nil => exact hm
  | cons x xs ih =>
    obtain ⟨hx, hrest⟩ := List.forall_mem_cons.mp hxs
    have hone : 0 ≤ entry m x.1 + x.2 := add_nonneg (hm.entry_nonneg x.1) hx
    exact ih (hm.credit hone) hrest

/-- An entry is part of the sum. -/
theorem NonnegEntries.entry_le_total {m : Balances κ} (hm : NonnegEntries m) (k : κ) :
    entry m k ≤ total m := by
  have hrest := (hm.erase k).total_nonneg
  rw [total_erase] at hrest
  omega

/-- So are the entries of finitely many keys. -/
theorem NonnegEntries.sum_entry_le_total {m : Balances κ} (hm : NonnegEntries m) (keys : Finset κ) :
    ∑ k ∈ keys, entry m k ≤ total m := by
  induction keys using Finset.induction_on generalizing m with
  | empty => exact hm.total_nonneg
  | insert k keys hk ih =>
    have hrest := ih (hm.erase k)
    have hsame : ∑ j ∈ keys, entry (m.erase k) j = ∑ j ∈ keys, entry m j := by
      refine Finset.sum_congr rfl fun j hj => entry_erase_of_ne m ?_
      rintro rfl
      exact hk hj
    rw [hsame, total_erase] at hrest
    rw [Finset.sum_insert hk]
    omega

end SorobanKit.HostBalances
