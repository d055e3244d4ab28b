import Mathlib.Data.List.Basic
import Mathlib.Data.List.Induction
import Mathlib.Order.Lattice

set_option autoImplicit false

/-!
# Insertion sort in place

The loops read and write one list. Before the pass at index `i` the elements in front of it are
sorted, and the pass sinks the element there into them. The element at an index of a sorted list is
then known by counting.
-/
namespace SorobanKit.HostSorting

section Positions
variable {α : Type}

theorem getD_middle (pre post : List α) (x fallback : α) :
    (pre ++ x :: post).getD pre.length fallback = x := by
  rw [List.getD_eq_getElem?_getD, List.getElem?_append_right (Nat.le_refl _), Nat.sub_self]
  rfl

theorem set_middle (pre post : List α) (x y : α) :
    (pre ++ x :: post).set pre.length y = pre ++ y :: post := by
  rw [List.set_append_right _ _ (Nat.le_refl _), Nat.sub_self]
  rfl

theorem getD_of_lt {values : List α} {k : ℕ} (hk : k < values.length) (fallback : α) :
    values.getD k fallback = values[k] := by
  rw [List.getD_eq_getElem?_getD, List.getElem?_eq_getElem hk]
  rfl

end Positions

variable {α : Type} [LinearOrder α] [Inhabited α]

/-- Moves greater elements up until `key` fits at index `j` or below. -/
def sink (key : α) : ℕ → List α → List α
  | 0, values => values.set 0 key
  | j + 1, values =>
    if key < values.getD j default then sink key j (values.set (j + 1) (values.getD j default))
    else values.set (j + 1) key

def pass (values : List α) (i : ℕ) : List α := sink (values.getD i default) i values

def sortInPlace (values : List α) : List α :=
  (List.range' 1 (values.length - 1)).foldl pass values

theorem sink_split (key : α) {pre : List α} (hpre : pre.Pairwise (· ≤ ·)) (x : α) (post : List α) :
    ∃ left right, pre = left ++ right ∧
      sink key pre.length (pre ++ x :: post) = left ++ key :: (right ++ post) ∧
      (∀ y ∈ left, y ≤ key) ∧ ∀ y ∈ right, key ≤ y := by
  induction pre using List.reverseRecOn generalizing x post with
  | nil => exact ⟨[], [], rfl, rfl, by simp, by simp⟩
  | append_singleton pre p ih =>
    obtain ⟨hsorted, _, hle⟩ := List.pairwise_append.mp hpre
    have hread : (pre ++ [p] ++ x :: post).getD pre.length default = p := by
      rw [List.append_assoc]
      exact getD_middle pre (x :: post) p default
    have hwrite : ∀ y, (pre ++ [p] ++ x :: post).set (pre.length + 1) y =
        pre ++ [p] ++ y :: post := by
      intro y
      have hset := set_middle (pre ++ [p]) post x y
      rw [List.length_append, List.length_singleton] at hset
      exact hset
    rw [List.length_append, List.length_singleton]
    unfold sink
    rw [hread]
    by_cases hkey : key < p
    · rw [if_pos hkey, hwrite]
      obtain ⟨left, right, rfl, hsink, hleft, hright⟩ := ih hsorted p (p :: post)
      refine ⟨left, right ++ [p], by rw [List.append_assoc], ?_, hleft, ?_⟩
      · rw [List.append_assoc (left ++ right), List.singleton_append, hsink, List.append_assoc right,
          List.singleton_append]
      · intro y hy
        rcases List.mem_append.mp hy with hy | hy
        · exact hright y hy
        · rw [List.mem_singleton.mp hy]
          exact le_of_lt hkey
    · rw [if_neg hkey, hwrite]
      refine ⟨pre ++ [p], [], (List.append_nil _).symm, rfl, ?_, by simp⟩
      intro y hy
      rcases List.mem_append.mp hy with hy | hy
      · exact le_trans (hle y hy p List.mem_cons_self) (not_lt.mp hkey)
      · rw [List.mem_singleton.mp hy]
        exact not_lt.mp hkey

theorem pass_spec {values : List α} {i : ℕ} (hi : i < values.length)
    (hsorted : (values.take i).Pairwise (· ≤ ·)) :
    (pass values i).Perm values ∧ ((pass values i).take (i + 1)).Pairwise (· ≤ ·) := by
  have hsplit : values = values.take i ++ values[i] :: values.drop (i + 1) := by
    rw [List.getElem_cons_drop, List.take_append_drop]
  have hlength : (values.take i).length = i := List.length_take_of_le (Nat.le_of_lt hi)
  rcases sink_split values[i] hsorted values[i] (values.drop (i + 1)) with
    ⟨left, right, hpre, hsink, hleft, hright⟩
  rw [← hsplit, hlength] at hsink
  have hpass : pass values i = left ++ values[i] :: right ++ values.drop (i + 1) := by
    unfold pass
    rw [getD_of_lt hi, hsink, List.append_assoc, List.cons_append]
  rw [hpass]
  constructor
  · have hmiddle : (left ++ values[i] :: right ++ values.drop (i + 1)).Perm
        (left ++ right ++ values[i] :: values.drop (i + 1)) := by
      rw [List.append_assoc, List.append_assoc, List.cons_append]
      exact List.Perm.append_left left List.perm_middle.symm
    rw [← hpre, ← hsplit] at hmiddle
    exact hmiddle
  · have hshort : (left ++ values[i] :: right).length = i + 1 := by
      have hsum := congrArg List.length hpre
      rw [hlength, List.length_append] at hsum
      rw [List.length_append, List.length_cons]
      omega
    rw [List.take_left' hshort]
    rw [hpre] at hsorted
    obtain ⟨hfirst, hlast, hacross⟩ := List.pairwise_append.mp hsorted
    apply List.pairwise_append.mpr
    refine ⟨hfirst, List.pairwise_cons.mpr ⟨hright, hlast⟩, ?_⟩
    intro a ha b hb
    rcases List.mem_cons.mp hb with rfl | hb
    · exact hleft a ha
    · exact hacross a ha b hb

theorem passes_spec (values : List α) {m : ℕ} (hm : m + 1 ≤ values.length) :
    ((List.range' 1 m).foldl pass values).Perm values ∧
      (((List.range' 1 m).foldl pass values).take (m + 1)).Pairwise (· ≤ ·) := by
  induction m with
  | zero =>
    refine ⟨List.Perm.refl _, ?_⟩
    cases values with
    | nil => exact List.Pairwise.nil
    | cons x values => exact List.pairwise_singleton _ x
  | succ m ih =>
    obtain ⟨hperm, hsorted⟩ := ih (by omega)
    rw [List.range'_concat, List.foldl_append, List.foldl_cons, List.foldl_nil, Nat.one_mul,
      Nat.add_comm 1 m]
    have hbound : m + 1 < ((List.range' 1 m).foldl pass values).length := by
      rw [hperm.length_eq]
      omega
    obtain ⟨hpass, hlonger⟩ := pass_spec hbound hsorted
    exact ⟨hpass.trans hperm, hlonger⟩

theorem sortInPlace_perm (values : List α) : (sortInPlace values).Perm values := by
  cases values with
  | nil => exact List.Perm.refl _
  | cons x values => exact (passes_spec (x :: values) (Nat.le_refl _)).1

theorem sortInPlace_sorted (values : List α) : (sortInPlace values).Pairwise (· ≤ ·) := by
  cases values with
  | nil => exact List.Pairwise.nil
  | cons x values =>
    have hlength := (sortInPlace_perm (x :: values)).length_eq
    have hsorted : ((sortInPlace (x :: values)).take (values.length + 1)).Pairwise (· ≤ ·) :=
      (passes_spec (x :: values) (Nat.le_refl _)).2
    rw [List.length_cons] at hlength
    rw [List.take_of_length_le (Nat.le_of_eq hlength)] at hsorted
    exact hsorted

/-- The element at an index of a sorted list is among those that meet a bound from above exactly if
    more elements do than the index. -/
theorem sorted_getD_iff {p : α → Bool} (hdown : ∀ a b, a ≤ b → p b = true → p a = true)
    {values : List α} (hsorted : values.Pairwise (· ≤ ·)) {k : ℕ} (hk : k < values.length) :
    p (values.getD k default) = true ↔ k < values.countP p := by
  induction values generalizing k with
  | nil => exact absurd hk (Nat.not_lt_zero k)
  | cons x values ih =>
    obtain ⟨hle, hsorted⟩ := List.pairwise_cons.mp hsorted
    by_cases hx : p x = true
    · rw [List.countP_cons_of_pos hx]
      cases k with
      | zero => simp [hx]
      | succ k =>
        rw [List.getD_cons_succ, ih hsorted (Nat.lt_of_succ_lt_succ hk)]
        omega
    · -- nothing that follows meets the bound either
      have hnone : ∀ y ∈ values, ¬ p y = true := fun y hy hpy => hx (hdown x y (hle y hy) hpy)
      rw [List.countP_cons_of_neg hx, List.countP_eq_zero.mpr hnone]
      cases k with
      | zero => simp [hx]
      | succ k =>
        have hmem : values.getD k default ∈ values := by
          rw [getD_of_lt (Nat.lt_of_succ_lt_succ hk)]
          exact List.getElem_mem _
        rw [List.getD_cons_succ]
        constructor
        · intro hpy
          exact absurd hpy (hnone _ hmem)
        · intro hlt
          exact absurd hlt (Nat.not_lt_zero _)

end SorobanKit.HostSorting
