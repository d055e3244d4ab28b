import Mathlib.Order.Lattice
import Mathlib.Data.List.Induction

set_option autoImplicit false

/-!
# The first of the greatest

A loop that keeps a candidate, passes over the elements that do not score above a floor and
replaces the candidate only by one that scores more, ends with the first element of greatest score.
-/
namespace SorobanKit.HostLeaders

variable {ι κ α : Type} [LinearOrder α]

/-- No element scores more than `x`, and none before it as much. -/
structure Leads (score : ι → α) (floor : α) (xs : List ι) (x : ι) : Prop where
  above : floor < score x
  first : ∃ before after, xs = before ++ x :: after ∧ (∀ y ∈ before, score y < score x) ∧
    ∀ y ∈ after, score y ≤ score x

/-- One round of the loop. -/
def keepBetter (score : ι → α) (floor : α) (best : Option ι) (x : ι) : Option ι :=
  if score x ≤ floor then best
  else
    match best with
    | some b => if score x ≤ score b then best else some x
    | none => some x

def leader (score : ι → α) (floor : α) (xs : List ι) : Option ι :=
  xs.foldl (keepBetter score floor) none

section Leads
variable {score : ι → α} {floor : α} {xs : List ι} {x y : ι}

theorem Leads.mem (h : Leads score floor xs x) : x ∈ xs := by
  obtain ⟨before, after, rfl, _, _⟩ := h.first
  exact List.mem_append_right _ List.mem_cons_self

theorem Leads.bounds (h : Leads score floor xs x) (hy : y ∈ xs) : score y ≤ score x := by
  obtain ⟨before, after, rfl, hbefore, hafter⟩ := h.first
  rcases List.mem_append.mp hy with hy | hy
  · exact le_of_lt (hbefore y hy)
  · rcases List.mem_cons.mp hy with rfl | hy
    · exact le_refl _
    · exact hafter y hy

/-- A later element that scores no more is passed over. -/
theorem Leads.append (h : Leads score floor xs x) (hy : score y ≤ score x) :
    Leads score floor (xs ++ [y]) x := by
  obtain ⟨before, after, rfl, hbefore, hafter⟩ := h.first
  refine ⟨h.above, before, after ++ [y], by rw [List.append_assoc, List.cons_append], hbefore, ?_⟩
  intro z hz
  rcases List.mem_append.mp hz with hz | hz
  · exact hafter z hz
  · rw [List.mem_singleton.mp hz]
    exact hy

theorem leads_last (hbefore : ∀ y ∈ xs, score y < score x) (habove : floor < score x) :
    Leads score floor (xs ++ [x]) x :=
  ⟨habove, xs, [], rfl, hbefore, fun _ hy => absurd hy (List.not_mem_nil)⟩

/-- There is one leader at most. -/
theorem Leads.unique (hx : Leads score floor xs x) (hy : Leads score floor xs y) : x = y := by
  have hsame : score x = score y := le_antisymm (hy.bounds hx.mem) (hx.bounds hy.mem)
  obtain ⟨before, after, hsplit, hbefore, _⟩ := hx.first
  obtain ⟨before', after', hsplit', hbefore', _⟩ := hy.first
  rcases List.append_eq_append_iff.mp (hsplit.symm.trans hsplit') with
    ⟨rest, hrest, htail⟩ | ⟨rest, hrest, htail⟩
  · cases rest with
    | nil => exact (List.cons.inj htail).1
    | cons z rest =>
      obtain ⟨rfl, _⟩ := List.cons.inj htail
      have hless := hbefore' x (by rw [hrest]; exact List.mem_append_right _ List.mem_cons_self)
      exact absurd hsame (ne_of_lt hless)
  · cases rest with
    | nil => exact (List.cons.inj htail).1.symm
    | cons z rest =>
      obtain ⟨rfl, _⟩ := List.cons.inj htail
      have hless := hbefore y (by rw [hrest]; exact List.mem_append_right _ List.mem_cons_self)
      exact absurd hsame.symm (ne_of_lt hless)

theorem leader_append (score : ι → α) (floor : α) (xs : List ι) (x : ι) :
    leader score floor (xs ++ [x]) = keepBetter score floor (leader score floor xs) x := by
  rw [leader, List.foldl_append]
  rfl

theorem leader_spec (score : ι → α) (floor : α) (xs : List ι) :
    (∀ x, leader score floor xs = some x → Leads score floor xs x) ∧
      (leader score floor xs = none → ∀ y ∈ xs, score y ≤ floor) := by
  induction xs using List.reverseRecOn with
  | nil =>
    refine ⟨?_, fun _ y hy => absurd hy (List.not_mem_nil)⟩
    intro x hx
    cases hx
  | append_singleton xs z ih =>
    obtain ⟨hsome, hnone⟩ := ih
    rw [leader_append]
    unfold keepBetter
    by_cases hlow : score z ≤ floor
    · rw [if_pos hlow]
      constructor
      · intro x hx
        have hlead := hsome x hx
        exact hlead.append (le_trans hlow (le_of_lt hlead.above))
      · intro hempty y hy
        rcases List.mem_append.mp hy with hy | hy
        · exact hnone hempty y hy
        · rw [List.mem_singleton.mp hy]
          exact hlow
    · rw [if_neg hlow]
      cases hbest : leader score floor xs with
      | none =>
        refine ⟨?_, fun hempty => by cases hempty⟩
        intro x hx
        cases hx
        exact leads_last (fun y hy => lt_of_le_of_lt (hnone hbest y hy) (not_le.mp hlow)) (not_le.mp hlow)
      | some b =>
        have hlead := hsome b hbest
        dsimp only
        by_cases hworse : score z ≤ score b
        · rw [if_pos hworse]
          refine ⟨?_, fun hempty => by cases hempty⟩
          intro x hx
          cases hx
          exact hlead.append hworse
        · rw [if_neg hworse]
          refine ⟨?_, fun hempty => by cases hempty⟩
          intro x hx
          cases hx
          exact leads_last (fun y hy => lt_of_le_of_lt (hlead.bounds hy) (not_le.mp hworse)) (not_le.mp hlow)

theorem leader_eq_some_iff : leader score floor xs = some x ↔ Leads score floor xs x := by
  constructor
  · exact (leader_spec score floor xs).1 x
  · intro hx
    cases hfound : leader score floor xs with
    | none => exact absurd hx.above (not_lt.mpr ((leader_spec score floor xs).2 hfound x hx.mem))
    | some y => rw [((leader_spec score floor xs).1 y hfound).unique hx]

theorem leader_eq_none_iff : leader score floor xs = none ↔ ∀ y ∈ xs, score y ≤ floor := by
  constructor
  · exact (leader_spec score floor xs).2
  · intro hlow
    cases hfound : leader score floor xs with
    | none => rfl
    | some x =>
      have hlead := (leader_spec score floor xs).1 x hfound
      exact absurd hlead.above (not_lt.mpr (hlow x hlead.mem))

end Leads

/-- Reading scores off the elements of another list. -/
theorem leader_map (score : ι → α) (floor : α) (f : κ → ι) (xs : List κ) :
    leader score floor (xs.map f) = (leader (fun k => score (f k)) floor xs).map f := by
  induction xs using List.reverseRecOn with
  | nil => rfl
  | append_singleton xs x ih =>
    rw [List.map_append, List.map_singleton, leader_append, leader_append, ih]
    unfold keepBetter
    by_cases hlow : score (f x) ≤ floor
    · rw [if_pos hlow, if_pos hlow]
    · rw [if_neg hlow, if_neg hlow]
      cases leader (fun k => score (f k)) floor xs with
      | none => rfl
      | some b =>
        rw [Option.map_some]
        dsimp only
        by_cases hworse : score (f x) ≤ score (f b)
        · rw [if_pos hworse, if_pos hworse]
          rfl
        · rw [if_neg hworse, if_neg hworse]
          rfl

end SorobanKit.HostLeaders
