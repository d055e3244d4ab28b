import Mathlib.Data.List.Basic

set_option autoImplicit false

/-!
# Hashing a queue down to one root

A queue of nodes is hashed pairwise: every step takes the front node together with the next
one of the queue or of a list of spare nodes, and puts their hash at the back. When a single
node is left, all nodes that went in lie on a path to it.
-/
namespace SorobanKit.HostHashQueue

variable {α : Type} {combine : α → α → α}

/-- Hash `node` with the siblings one after the other. -/
def climb (combine : α → α → α) (node : α) (siblings : List α) : α := siblings.foldl combine node

/-- There are siblings along which `node` hashes to `root`. -/
def Under (combine : α → α → α) (root node : α) : Prop := ∃ siblings, climb combine node siblings = root

theorem under_self (root : α) : Under combine root root := ⟨[], rfl⟩

theorem under_left {root a b : α} (h : Under combine root (combine a b)) : Under combine root a := by
  obtain ⟨siblings, hroot⟩ := h
  exact ⟨b :: siblings, hroot⟩

theorem under_right (hcomm : ∀ a b, combine a b = combine b a) {root a b : α}
    (h : Under combine root (combine a b)) : Under combine root b := by
  rw [hcomm] at h
  exact under_left h

/-- The second operand comes from the queue if `flag` is set, else from the spare nodes. -/
def consumeOne (combine : α → α → α) : List α × List α → Bool → Option (List α × List α)
  | (a :: b :: queue, spare), true => some (queue ++ [combine a b], spare)
  | (a :: queue, b :: spare), false => some (queue ++ [combine a b], spare)
  | _, _ => none

theorem consumeOne_true (a b : α) (queue spare : List α) :
    consumeOne combine (a :: b :: queue, spare) true = some (queue ++ [combine a b], spare) := rfl

theorem consumeOne_false (a b : α) (queue spare : List α) :
    consumeOne combine (a :: queue, b :: spare) false = some (queue ++ [combine a b], spare) := by
  cases queue <;> rfl

def consume (combine : α → α → α) (nodes : List α × List α) (flags : List Bool) :
    Option (List α × List α) :=
  flags.foldlM (consumeOne combine) nodes

theorem consumeOne_cases {queue spare queue' spare' : List α} {flag : Bool}
    (h : consumeOne combine (queue, spare) flag = some (queue', spare')) :
    (∃ a b rest, flag = true ∧ queue = a :: b :: rest ∧ queue' = rest ++ [combine a b] ∧
      spare' = spare) ∨
    (∃ a b rest, flag = false ∧ queue = a :: rest ∧ spare = b :: spare' ∧
      queue' = rest ++ [combine a b]) := by
  unfold consumeOne at h
  split at h
  · next a b rest spare heq =>
    cases heq
    cases h
    exact .inl ⟨a, b, rest, rfl, rfl, rfl, rfl⟩
  · next a rest b spare heq =>
    cases heq
    cases h
    exact .inr ⟨a, b, rest, rfl, rfl, rfl, rfl⟩
  · cases h

theorem consume_cons {nodes nodes' : List α × List α} {flag : Bool} {flags : List Bool}
    (h : consume combine nodes (flag :: flags) = some nodes') :
    ∃ next, consumeOne combine nodes flag = some next ∧ consume combine next flags = some nodes' := by
  simpa [consume, List.foldlM_cons, Option.bind_eq_some_iff] using h

/-- Every step makes one node out of two. -/
theorem consume_length {queue spare queue' spare' : List α} {flags : List Bool}
    (h : consume combine (queue, spare) flags = some (queue', spare')) :
    queue'.length + spare'.length + flags.length = queue.length + spare.length ∧
      spare'.length + flags.count false = spare.length := by
  induction flags generalizing queue spare with
  | nil =>
    cases h
    simp
  | cons flag flags ih =>
    obtain ⟨⟨next, left⟩, hone, h⟩ := consume_cons h
    have hrest := ih h
    rcases consumeOne_cases hone with ⟨a, b, rest, rfl, rfl, rfl, rfl⟩ | ⟨a, b, rest, rfl, rfl, rfl, rfl⟩
    · simp only [List.length_append, List.length_cons, List.length_nil, List.count_cons] at hrest ⊢
      simp only [beq_false, Bool.not_true, Bool.false_eq_true, ↓reduceIte]
      omega
    · simp only [List.length_append, List.length_cons, List.length_nil, List.count_cons] at hrest ⊢
      simp only [BEq.rfl, ↓reduceIte]
      omega

/-- When one node is left, every node of the queue and every spare node is under it. -/
theorem under_of_consume (hcomm : ∀ a b, combine a b = combine b a) {root : α}
    {queue spare : List α} {flags : List Bool}
    (h : consume combine (queue, spare) flags = some ([root], [])) :
    (∀ x ∈ queue, Under combine root x) ∧ ∀ x ∈ spare, Under combine root x := by
  induction flags generalizing queue spare with
  | nil =>
    cases h
    refine ⟨fun x hx => ?_, by simp⟩
    rw [List.mem_singleton.mp hx]
    exact under_self root
  | cons flag flags ih =>
    obtain ⟨⟨next, left⟩, hone, h⟩ := consume_cons h
    obtain ⟨hqueue, hspare⟩ := ih h
    rcases consumeOne_cases hone with ⟨a, b, rest, rfl, rfl, rfl, rfl⟩ | ⟨a, b, rest, rfl, rfl, rfl, rfl⟩
    · have hnew : Under combine root (combine a b) := hqueue _ (by simp)
      refine ⟨fun x hx => ?_, hspare⟩
      simp only [List.mem_cons] at hx
      rcases hx with rfl | rfl | hx
      · exact under_left hnew
      · exact under_right hcomm hnew
      · exact hqueue x (by simp [hx])
    · have hnew : Under combine root (combine a b) := hqueue _ (by simp)
      refine ⟨fun x hx => ?_, fun x hx => ?_⟩
      · rcases List.mem_cons.mp hx with rfl | hx
        · exact under_left hnew
        · exact hqueue x (by simp [hx])
      · rcases List.mem_cons.mp hx with rfl | hx
        · exact under_right hcomm hnew
        · exact hspare x hx

end SorobanKit.HostHashQueue
