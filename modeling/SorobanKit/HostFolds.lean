import Mathlib.Data.List.Sort

set_option autoImplicit false

/-!
# Merging in different orders

An operation merges the elements of a list one after the other. Where what is merged later counts for
more, the order of the relation gives the most of all orders, and the reverse one the least.
-/
namespace SorobanKit.HostFolds

/-- Merging keeps a relation, does not mind the order of two values, and has the later of two
    elements count for more. -/
structure Merging {α : Type} (r : α → α → Prop) (op : α → α → α) : Prop where
  comm : ∀ a b, op a b = op b a
  mono : ∀ v w a, r v w → r (op v a) (op w a)
  later : ∀ v a b, r a b → r (op (op v b) a) (op (op v a) b)

section Merges
variable {α : Type} {r : α → α → Prop} {op : α → α → α}

/-- The elements of a list merged in order, or the fallback if there are none. -/
def mergeAll (op : α → α → α) (fallback : α) : List α → α
  | [] => fallback
  | first :: rest => rest.foldl op first

theorem Merging.foldl_mono (h : Merging r op) {v w : α} (hvw : r v w) (l : List α) :
    r (l.foldl op v) (l.foldl op w) := by
  induction l generalizing v w with
  | nil => exact hvw
  | cons a l ih => exact ih (h.mono v w a hvw)

variable [DecidableRel r] [Std.Total r] [IsTrans α r]

theorem Merging.foldl_orderedInsert (h : Merging r op) (v a : α) (l : List α) :
    r ((a :: l).foldl op v) ((l.orderedInsert r a).foldl op v) := by
  induction l generalizing v with
  | nil => exact refl_of r _
  | cons b l ih =>
    rw [List.orderedInsert_cons]
    by_cases hab : r a b
    · rw [if_pos hab]
      exact refl_of r _
    · have hba : r b a := (total_of r a b).resolve_left hab
      rw [if_neg hab]
      exact trans_of r (h.foldl_mono (h.later v b a hba) l) (ih (op v b))

theorem Merging.foldl_insertionSort (h : Merging r op) (v : α) (l : List α) :
    r (l.foldl op v) ((l.insertionSort r).foldl op v) := by
  induction l generalizing v with
  | nil => exact refl_of r _
  | cons a l ih =>
    rw [List.insertionSort_cons]
    exact trans_of r (ih (op v a)) (h.foldl_orderedInsert v a (l.insertionSort r))

theorem Merging.mergeAll_insertionSort (h : Merging r op) (fallback : α) (l : List α) :
    r (mergeAll op fallback l) (mergeAll op fallback (l.insertionSort r)) := by
  cases l with
  | nil => exact refl_of r _
  | cons first rest =>
    rw [List.insertionSort_cons]
    have hrest : r (mergeAll op fallback (first :: rest))
        (mergeAll op fallback (first :: rest.insertionSort r)) := h.foldl_insertionSort first rest
    apply trans_of r hrest
    cases rest.insertionSort r with
    | nil => exact refl_of r _
    | cons second sorted =>
      rw [List.orderedInsert_cons]
      by_cases hfirst : r first second
      · rw [if_pos hfirst]
        exact refl_of r _
      · -- the first two can be swapped
        have hswap : mergeAll op fallback (first :: second :: sorted) =
            (first :: sorted).foldl op second := by
          change sorted.foldl op (op first second) = sorted.foldl op (op second first)
          rw [h.comm]
        rw [if_neg hfirst, hswap]
        exact h.foldl_orderedInsert second first sorted

end Merges

theorem insertionSort_perm {α : Type} (r : α → α → Prop) [DecidableRel r] [Std.Total r]
    [IsTrans α r] [Std.Antisymm r] {l m : List α} (h : l.Perm m) :
    l.insertionSort r = m.insertionSort r := by
  have hperm : (l.insertionSort r).Perm (m.insertionSort r) :=
    (List.perm_insertionSort r l).trans (h.trans (List.perm_insertionSort r m).symm)
  exact List.Perm.eq_of_pairwise' (List.pairwise_insertionSort r l)
    (List.pairwise_insertionSort r m) hperm

/-- Every order gives the same exactly if the two extreme ones do. -/
theorem mergeAll_order_free_iff {α : Type} [LinearOrder α] {op : α → α → α}
    (hup : Merging (· ≤ ·) op) (hdown : Merging (· ≥ ·) op) (fallback : α) (l : List α) :
    (∀ order : List α, order.Perm l → mergeAll op fallback order = mergeAll op fallback l) ↔
      mergeAll op fallback (l.insertionSort (· ≤ ·)) =
        mergeAll op fallback (l.insertionSort (· ≥ ·)) := by
  constructor
  · intro hfree
    rw [hfree _ (List.perm_insertionSort _ l), hfree _ (List.perm_insertionSort _ l)]
  · intro hsame
    have hone : ∀ order : List α, order.Perm l →
        mergeAll op fallback order = mergeAll op fallback (l.insertionSort (· ≤ ·)) := by
      intro order hperm
      have hmost := hup.mergeAll_insertionSort fallback order
      have hleast := hdown.mergeAll_insertionSort fallback order
      rw [insertionSort_perm (· ≤ ·) hperm] at hmost
      rw [insertionSort_perm (· ≥ ·) hperm, ← hsame] at hleast
      exact le_antisymm hmost hleast
    intro order hperm
    rw [hone order hperm, hone l (List.Perm.refl l)]

end SorobanKit.HostFolds
