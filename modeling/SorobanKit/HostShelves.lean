import SorobanKit.HostBalances

set_option autoImplicit false

/-!
# Numbered lists kept in three maps

Items are kept on shelves, one a key, without gaps: `item (k, i)` for `i` below `count k`,
and `position` finds an item again. An item is added at the end of a shelf; when one is
taken out, the last item of the shelf moves into its place. `Holds own` says that the maps
list exactly the items that `own` gives to each key.
-/
namespace SorobanKit.HostShelves
open HostBalances

variable {κ ι : Type} [DecidableEq κ] [DecidableEq ι]

structure Shelves (κ ι : Type) where
  count : Finmap (fun _ : κ => ℕ)
  item : Finmap (fun _ : κ × ℕ => ι)
  position : Finmap (fun _ : ι => ℕ)

namespace Shelves

def size (x : Shelves κ ι) (k : κ) : ℕ := (x.count.lookup k).getD 0

/-- The number of all items. -/
def sizes (x : Shelves κ ι) : ℤ := sumBy (fun _ (n : ℕ) => (n : ℤ)) x.count

def push (k : κ) (a : ι) (x : Shelves κ ι) : Shelves κ ι where
  count := x.count.insert k (x.size k + 1)
  item := x.item.insert (k, x.size k) a
  position := x.position.insert a (x.size k)

/-- The last item of the shelf takes the place `i`. -/
def moveLast [Inhabited ι] (k : κ) (i : ℕ) (x : Shelves κ ι) : Shelves κ ι :=
  let last := x.size k - 1
  if i = last then x
  else
    let moved := (x.item.lookup (k, last)).getD default
    { x with
      item := x.item.insert (k, i) moved
      position := x.position.insert moved i }

def swapRemove [Inhabited ι] (k : κ) (a : ι) (x : Shelves κ ι) : Shelves κ ι :=
  if x.size k = 0 then x
  else
    let last := x.size k - 1
    let y := x.moveLast k ((x.position.lookup a).getD 0)
    { count := y.count.insert k last
      item := y.item.erase (k, last)
      position := y.position.erase a }

structure Holds (own : ι → Option κ) (x : Shelves κ ι) : Prop where
  listed : ∀ a k, own a = some k → ∃ i, x.position.lookup a = some i ∧ i < x.size k ∧
    x.item.lookup (k, i) = some a
  owned : ∀ k i, i < x.size k → ∃ a, x.item.lookup (k, i) = some a ∧ own a = some k ∧
    x.position.lookup a = some i

omit [DecidableEq ι] in
theorem part_count (x : Shelves κ ι) (k : κ) :
    part (fun _ (n : ℕ) => (n : ℤ)) x.count k = x.size k := by
  unfold part size
  cases x.count.lookup k <;> rfl

theorem size_push (k j : κ) (a : ι) (x : Shelves κ ι) :
    (x.push k a).size j = if j = k then x.size k + 1 else x.size j := by
  unfold push size
  dsimp only
  rw [lookup_insert_ite]
  split <;> rfl

theorem sizes_push (k : κ) (a : ι) (x : Shelves κ ι) : (x.push k a).sizes = x.sizes + 1 := by
  unfold sizes push
  rw [sumBy_insert, part_count]
  omega

theorem count_moveLast [Inhabited ι] (k : κ) (i : ℕ) (x : Shelves κ ι) :
    (x.moveLast k i).count = x.count := by
  unfold moveLast
  dsimp only
  split <;> rfl

theorem size_swapRemove [Inhabited ι] (k j : κ) (a : ι) (x : Shelves κ ι) :
    (x.swapRemove k a).size j = if j = k then x.size k - 1 else x.size j := by
  unfold swapRemove
  split
  · next hzero =>
    split
    · next hj =>
      subst hj
      omega
    · rfl
  · unfold size
    dsimp only
    rw [lookup_insert_ite, count_moveLast]
    split <;> rfl

theorem sizes_swapRemove [Inhabited ι] {k : κ} {x : Shelves κ ι} (a : ι) (h : x.size k ≠ 0) :
    (x.swapRemove k a).sizes = x.sizes - 1 := by
  unfold sizes swapRemove
  rw [if_neg h]
  dsimp only
  rw [count_moveLast, sumBy_insert, part_count]
  omega

omit [DecidableEq ι] in
theorem size_le_sizes (x : Shelves κ ι) (k : κ) : (x.size k : ℤ) ≤ x.sizes := by
  rw [← part_count]
  exact part_le_sumBy (fun _ n _ => Int.natCast_nonneg n) k

section Rules
variable {own : ι → Option κ} {x : Shelves κ ι}

/-- An item that nobody owned is added. -/
theorem Holds.push (hx : Holds own x) (k : κ) {a : ι} (hnew : own a = none) :
    Holds (Function.update own a (some k)) (x.push k a) := by
  refine ⟨fun b j hb => ?_, fun j i hi => ?_⟩
  · by_cases hba : b = a
    · subst hba
      rw [Function.update_self] at hb
      cases hb
      refine ⟨x.size k, Finmap.lookup_insert _, ?_, Finmap.lookup_insert _⟩
      rw [size_push, if_pos rfl]
      omega
    · rw [Function.update_of_ne hba] at hb
      obtain ⟨i, hpos, hi, hitem⟩ := hx.listed b j hb
      refine ⟨i, ?_, ?_, ?_⟩
      · exact (Finmap.lookup_insert_of_ne _ hba).trans hpos
      · rw [size_push]
        split
        · next hj =>
          subst hj
          omega
        · exact hi
      · refine (Finmap.lookup_insert_of_ne _ ?_).trans hitem
        rintro ⟨rfl, rfl⟩
        omega
  · rw [size_push] at hi
    by_cases hend : j = k ∧ i = x.size k
    · obtain ⟨rfl, rfl⟩ := hend
      exact ⟨a, Finmap.lookup_insert _, Function.update_self .., Finmap.lookup_insert _⟩
    · have hold : i < x.size j := by
        split at hi
        · next hj =>
          subst hj
          have hne : i ≠ x.size j := fun heq => hend ⟨rfl, heq⟩
          omega
        · exact hi
      obtain ⟨b, hitem, hb, hpos⟩ := hx.owned j i hold
      have hba : b ≠ a := by
        rintro rfl
        rw [hnew] at hb
        cases hb
      refine ⟨b, (Finmap.lookup_insert_of_ne _ ?_).trans hitem, ?_,
        (Finmap.lookup_insert_of_ne _ hba).trans hpos⟩
      · intro heq
        exact hend (Prod.mk.inj heq)
      · rw [Function.update_of_ne hba]
        exact hb

theorem Holds.at_place (hx : Holds own x) {k : κ} {i : ℕ} {a : ι} (hi : i < x.size k)
    (hitem : x.item.lookup (k, i) = some a) : own a = some k ∧ x.position.lookup a = some i := by
  obtain ⟨b, hb, howner, hpos⟩ := hx.owned k i hi
  rw [hitem] at hb
  cases hb
  exact ⟨howner, hpos⟩

/-- The maps after an item at place `i` was taken out and `last` took its place. -/
theorem swapRemove_eq [Inhabited ι] {k : κ} {a last : ι} {i : ℕ} (hsize : x.size k ≠ 0)
    (hpos : x.position.lookup a = some i)
    (hlast : x.item.lookup (k, x.size k - 1) = some last) :
    x.swapRemove k a =
      { count := x.count.insert k (x.size k - 1)
        item := (if i = x.size k - 1 then x.item else x.item.insert (k, i) last).erase
          (k, x.size k - 1)
        position := (if i = x.size k - 1 then x.position else x.position.insert last i).erase a } := by
  unfold swapRemove moveLast
  rw [if_neg hsize, hpos]
  dsimp only [Option.getD_some]
  rw [hlast]
  split <;> rfl

omit [DecidableEq ι] in
theorem lt_size_swapRemove {k j : κ} {n : ℕ} :
    (n < if j = k then x.size k - 1 else x.size j) ↔
      n < x.size j ∧ (j, n) ≠ (k, x.size k - 1) := by
  rw [ne_eq, Prod.mk.injEq]
  by_cases hj : j = k
  · subst hj
    simp only [if_true, true_and]
    omega
  · simp [hj]

section Removal
variable [Inhabited ι] {k : κ} {a last : ι} {i : ℕ}

theorem position_swapRemove (hsize : x.size k ≠ 0) (hpos : x.position.lookup a = some i)
    (hitem : x.item.lookup (k, i) = some a)
    (hlast : x.item.lookup (k, x.size k - 1) = some last) {b : ι} (hba : b ≠ a) :
    (x.swapRemove k a).position.lookup b =
      if b = last then some i else x.position.lookup b := by
  rw [swapRemove_eq hsize hpos hlast]
  dsimp only
  rw [Finmap.lookup_erase_ne hba]
  by_cases hend : i = x.size k - 1
  · -- the item taken out is the last one
    rw [← hend, hitem] at hlast
    cases hlast
    rw [if_pos hend, if_neg hba]
  · rw [if_neg hend, lookup_insert_ite]

theorem item_swapRemove (hsize : x.size k ≠ 0) (hpos : x.position.lookup a = some i)
    (hlast : x.item.lookup (k, x.size k - 1) = some last) {j : κ} {n : ℕ}
    (hkept : (j, n) ≠ (k, x.size k - 1)) :
    (x.swapRemove k a).item.lookup (j, n) =
      if (j, n) = (k, i) then some last else x.item.lookup (j, n) := by
  rw [swapRemove_eq hsize hpos hlast]
  dsimp only
  rw [Finmap.lookup_erase_ne hkept]
  by_cases hend : i = x.size k - 1
  · rw [if_pos hend, hend, if_neg hkept]
  · rw [if_neg hend, lookup_insert_ite]

end Removal

/-- An item that is on a shelf is taken out. -/
theorem Holds.swapRemove [Inhabited ι] (hx : Holds own x) {k : κ} {a : ι} (ha : own a = some k) :
    Holds (Function.update own a none) (x.swapRemove k a) := by
  obtain ⟨i, hpos, hi, hitem⟩ := hx.listed a k ha
  obtain ⟨last, hlast, howner, hlastpos⟩ := hx.owned k (x.size k - 1) (by omega)
  have hsize : x.size k ≠ 0 := by omega
  refine ⟨fun b j hb => ?_, fun j n hn => ?_⟩
  · have hba : b ≠ a := by
      rintro rfl
      rw [Function.update_self] at hb
      cases hb
    rw [Function.update_of_ne hba] at hb
    rw [position_swapRemove hsize hpos hitem hlast hba, size_swapRemove]
    simp only [lt_size_swapRemove]
    by_cases hmoved : b = last
    · subst hmoved
      rw [howner] at hb
      cases hb
      have hkept : (k, i) ≠ (k, x.size k - 1) := by
        intro heq
        rw [heq, hlast] at hitem
        cases hitem
        exact hba rfl
      refine ⟨i, if_pos rfl, ⟨hi, hkept⟩, ?_⟩
      rw [item_swapRemove hsize hpos hlast hkept, if_pos rfl]
    · obtain ⟨m, hbpos, hm, hbitem⟩ := hx.listed b j hb
      have hkept : (j, m) ≠ (k, x.size k - 1) := by
        intro heq
        rw [heq, hlast] at hbitem
        cases hbitem
        exact hmoved rfl
      have hplace : (j, m) ≠ (k, i) := by
        intro heq
        rw [heq, hitem] at hbitem
        cases hbitem
        exact hba rfl
      refine ⟨m, (if_neg hmoved).trans hbpos, ⟨hm, hkept⟩, ?_⟩
      rw [item_swapRemove hsize hpos hlast hkept, if_neg hplace, hbitem]
  · rw [size_swapRemove, lt_size_swapRemove] at hn
    obtain ⟨hold, hkept⟩ := hn
    rw [item_swapRemove hsize hpos hlast hkept]
    by_cases hplace : (j, n) = (k, i)
    · -- the place that was filled again
      rw [hplace] at hkept
      cases hplace
      have hla : last ≠ a := by
        rintro rfl
        rw [hpos] at hlastpos
        exact hkept (by rw [Option.some.inj hlastpos])
      refine ⟨last, if_pos rfl, ?_, ?_⟩
      · rw [Function.update_of_ne hla]
        exact howner
      · rw [position_swapRemove hsize hpos hitem hlast hla, if_pos rfl]
    · obtain ⟨b, hbitem, hb, hbpos⟩ := hx.owned j n hold
      have hba : b ≠ a := by
        rintro rfl
        rw [ha] at hb
        rw [hpos] at hbpos
        exact hplace (Prod.ext (Option.some.inj hb).symm (Option.some.inj hbpos).symm)
      have hbl : b ≠ last := by
        rintro rfl
        rw [howner] at hb
        rw [hlastpos] at hbpos
        exact hkept (Prod.ext (Option.some.inj hb).symm (Option.some.inj hbpos).symm)
      refine ⟨b, (if_neg hplace).trans hbitem, ?_, ?_⟩
      · rw [Function.update_of_ne hba]
        exact hb
      · rw [position_swapRemove hsize hpos hitem hlast hba, if_neg hbl, hbpos]

/-- The list of one key has exactly the items that it owns, each at one place. -/
theorem Holds.lists (hx : Holds own x) (k : κ) :
    (∀ i, i < x.size k → ∃ a, x.item.lookup (k, i) = some a ∧ own a = some k ∧
      x.position.lookup a = some i) ∧
    ∀ a, own a = some k → ∃! i, i < x.size k ∧ x.item.lookup (k, i) = some a := by
  refine ⟨hx.owned k, fun a ha => ?_⟩
  obtain ⟨i, hpos, hi, hitem⟩ := hx.listed a k ha
  refine ⟨i, ⟨hi, hitem⟩, fun j hj => ?_⟩
  have hplace := (hx.at_place hj.1 hj.2).2
  rw [hpos] at hplace
  exact (Option.some.inj hplace).symm

end Rules

end Shelves

end SorobanKit.HostShelves
