import Mathlib.Data.Nat.Notation
import Mathlib.Logic.Basic

set_option autoImplicit false

/-!
# Invocations of a contract by its host

A contract function either returns or fails. It fails with one of the contract's own
error codes, or with a trap of the host: a missing authorization, an overflow in
unchecked arithmetic, or a callee that fails. Either way the host keeps nothing of the
invocation, so `Result` carries the new state only on success.
-/
namespace SorobanKit.HostInvocation

/-- Addresses are opaque to contracts: they can only be compared. -/
structure Address where
  id : ℕ
  deriving DecidableEq, Repr

inductive Failure (ε : Type) where
  | error (code : ε)
  | trap
  deriving DecidableEq, Repr

abbrev Result (ε α : Type) := Except (Failure ε) α

/-- What the host tells the contract about one invocation: the ledger it runs in and
    the addresses that authorized it. -/
structure Context where
  sequence : ℕ
  auths : List Address

section Guards
variable {ε α β : Type}

/-- `if c { return Err(code) }` -/
def rejectIf (c : Prop) [Decidable c] (code : ε) : Result ε Unit :=
  if c then .error (.error code) else .ok ()

def trapUnless (c : Prop) [Decidable c] : Result ε Unit :=
  if c then .ok () else .error .trap

/-- `x.ok_or(code)?` -/
def okOr (x : Option α) (code : ε) : Result ε α :=
  match x with
  | some a => .ok a
  | none => .error (.error code)

/-- `x.unwrap()`, and arithmetic compiled with overflow checks. -/
def unwrap (x : Option α) : Result ε α :=
  match x with
  | some a => .ok a
  | none => .error .trap

def requireAuth (ctx : Context) (a : Address) : Result ε Unit :=
  trapUnless (a ∈ ctx.auths)

/-- What an invocation wrote is kept only if it returned. -/
def commit (x : α × Result ε Unit) : Result ε α := x.2.map fun _ => x.1

@[simp] theorem commit_ok (a : α) : commit ((a, .ok ()) : α × Result ε Unit) = .ok a := rfl

@[simp] theorem commit_error (a : α) (e : Failure ε) : commit (a, .error e) = .error e := rfl

@[simp] theorem bind_eq_ok {x : Result ε α} {f : α → Result ε β} {b : β} :
    (x >>= f) = .ok b ↔ ∃ a, x = .ok a ∧ f a = .ok b := by
  cases x with
  | error e => simp [bind, Except.bind]
  | ok a => simp [bind, Except.bind]

theorem ok_bind {a : α} {f : α → Result ε β} : ((.ok a : Result ε α) >>= f) = f a := rfl

theorem rejectIf_neg {c : Prop} [Decidable c] {code : ε} (h : ¬ c) : rejectIf c code = .ok () :=
  if_neg h

theorem rejectIf_pos {c : Prop} [Decidable c] {code : ε} (h : c) :
    rejectIf c code = .error (.error code) :=
  if_pos h

@[simp] theorem pure_eq_ok {a b : α} : (pure a : Result ε α) = .ok b ↔ a = b := by
  simp [pure, Except.pure]

@[simp] theorem rejectIf_eq_ok {c : Prop} [Decidable c] {code : ε} {u : Unit} :
    rejectIf c code = .ok u ↔ ¬ c := by
  unfold rejectIf
  split <;> simp_all

@[simp] theorem trapUnless_eq_ok {c : Prop} [Decidable c] {u : Unit} :
    (trapUnless c : Result ε Unit) = .ok u ↔ c := by
  unfold trapUnless
  split <;> simp_all

@[simp] theorem okOr_eq_ok {x : Option α} {code : ε} {a : α} :
    okOr x code = .ok a ↔ x = some a := by
  cases x <;> simp [okOr]

@[simp] theorem unwrap_eq_ok {x : Option α} {a : α} :
    (unwrap x : Result ε α) = .ok a ↔ x = some a := by
  cases x <;> simp [unwrap]

@[simp] theorem requireAuth_eq_ok {ctx : Context} {a : Address} {u : Unit} :
    (requireAuth ctx a : Result ε Unit) = .ok u ↔ a ∈ ctx.auths := by
  simp [requireAuth]

/-- Both ways through a branch of a function that returned. -/
theorem ite_eq_ok {c : Prop} [Decidable c] {x y : Result ε α} {a : α} :
    (if c then x else y) = .ok a ↔ (c ∧ x = .ok a) ∨ (¬ c ∧ y = .ok a) := by
  by_cases h : c <;> simp [h]

theorem bind_eq_error {x : Result ε α} {f : α → Result ε β} {e : Failure ε} :
    (x >>= f) = .error e ↔ x = .error e ∨ ∃ a, x = .ok a ∧ f a = .error e := by
  cases x with
  | error e' => simp [bind, Except.bind]
  | ok a => simp [bind, Except.bind]

theorem rejectIf_eq_error {c : Prop} [Decidable c] {code : ε} {e : Failure ε} :
    rejectIf c code = .error e ↔ c ∧ .error code = e := by
  unfold rejectIf
  split <;> simp_all

theorem okOr_eq_error {x : Option α} {code : ε} {e : Failure ε} :
    okOr x code = .error e ↔ x = none ∧ .error code = e := by
  cases x <;> simp [okOr]

theorem unwrap_eq_error {x : Option α} {e : Failure ε} :
    (unwrap x : Result ε α) = .error e ↔ x = none ∧ .trap = e := by
  cases x <;> simp [unwrap]

theorem trapUnless_eq_error {c : Prop} [Decidable c] {e : Failure ε} :
    (trapUnless c : Result ε Unit) = .error e ↔ ¬ c ∧ .trap = e := by
  unfold trapUnless
  split <;> simp_all

theorem requireAuth_eq_error {ctx : Context} {a : Address} {e : Failure ε} :
    (requireAuth ctx a : Result ε Unit) = .error e ↔ a ∉ ctx.auths ∧ .trap = e := by
  unfold requireAuth trapUnless
  split <;> simp_all

/-- A loop of checks passes only when every check does. -/
theorem forM_ok {items : List α} {f : α → Result ε Unit} (h : items.forM f = .ok ()) :
    ∀ x ∈ items, f x = .ok () := by
  induction items with
  | nil => simp
  | cons y items ih =>
    simp only [List.forM_eq_forM, List.forM_cons, bind_eq_ok] at h
    obtain ⟨_, hy, h⟩ := h
    intro x hx
    rcases List.mem_cons.mp hx with rfl | hx
    · exact hy
    · exact ih h x hx

/-- A loop fails in one of its rounds. -/
theorem foldlM_eq_error {f : β → α → Result ε β} {l : List α} {b : β} {e : Failure ε}
    (h : l.foldlM f b = .error e) : ∃ x ∈ l, ∃ c, f c x = .error e := by
  induction l generalizing b with
  | nil => cases h
  | cons x l ih =>
    rw [List.foldlM_cons, bind_eq_error] at h
    rcases h with hx | ⟨c, _, hrest⟩
    · exact ⟨x, List.mem_cons_self, b, hx⟩
    · obtain ⟨y, hy, hfail⟩ := ih hrest
      exact ⟨y, List.mem_cons_of_mem _ hy, hfail⟩

/-- A loop that skips some items is the loop over the other ones. -/
theorem foldlM_skip (p : α → Prop) [DecidablePred p] (f : β → α → Result ε β) (b : β)
    (l : List α) :
    l.foldlM (fun b a => if p a then pure b else f b a) b =
      (l.filter (fun a => ¬ p a)).foldlM f b := by
  induction l generalizing b with
  | nil => rfl
  | cons a l ih =>
    by_cases h : p a
    · simp only [List.foldlM_cons, h, ↓reduceIte, pure_bind, ih, not_true, decide_false,
        List.filter_cons, Bool.false_eq_true]
    · simp only [List.foldlM_cons, h, ↓reduceIte, ih, not_false_eq_true, decide_true,
        List.filter_cons]

/-- The invariant rule for a loop over the indices below `n`. -/
theorem foldlM_range_ok {f : β → ℕ → Result ε β} {I : ℕ → β → Prop} {n : ℕ} {b c : β}
    (hstart : I 0 b) (hstep : ∀ i b c, i < n → I i b → f b i = .ok c → I (i + 1) c)
    (h : (List.range n).foldlM f b = .ok c) : I n c := by
  induction n generalizing c with
  | zero =>
    rw [List.range_zero, List.foldlM_nil, pure_eq_ok] at h
    rw [← h]
    exact hstart
  | succ n ih =>
    simp only [List.range_succ, List.foldlM_append, List.foldlM_cons, List.foldlM_nil, bind_eq_ok,
      pure_eq_ok] at h
    obtain ⟨d, hd, e, he, rfl⟩ := h
    have hpast := ih (fun i b c hi => hstep i b c (by omega)) hd
    exact hstep n d e (by omega) hpast he

/-- The same rule for a loop that always returns: every round does, in a state it can be reached in. -/
theorem foldlM_range_returns {f : β → ℕ → Result ε β} {I : ℕ → β → Prop} {n : ℕ} {b : β}
    (hstart : I 0 b) (hstep : ∀ i b, i < n → I i b → ∃ c, f b i = .ok c ∧ I (i + 1) c) :
    ∃ c, (List.range n).foldlM f b = .ok c ∧ I n c := by
  induction n with
  | zero => exact ⟨b, rfl, hstart⟩
  | succ n ih =>
    obtain ⟨d, hd, hpast⟩ := ih fun i b hi => hstep i b (by omega)
    obtain ⟨e, he, hnext⟩ := hstep n d (by omega) hpast
    refine ⟨e, ?_, hnext⟩
    simp only [List.range_succ, List.foldlM_append, List.foldlM_cons, List.foldlM_nil, bind_eq_ok,
      pure_eq_ok]
    exact ⟨d, hd, e, he, rfl⟩

/-- What is computed of every item is computed of the list, and nothing else is in it. -/
theorem mapM_returns {f : α → Result ε β} {l : List α} (h : ∀ x ∈ l, ∃ y, f x = .ok y) :
    ∃ ys, l.mapM f = .ok ys ∧ ∀ y ∈ ys, ∃ x ∈ l, f x = .ok y := by
  induction l with
  | nil => exact ⟨[], rfl, by simp⟩
  | cons x l ih =>
    obtain ⟨y, hy⟩ := h x List.mem_cons_self
    obtain ⟨ys, hys, hall⟩ := ih fun z hz => h z (List.mem_cons_of_mem _ hz)
    refine ⟨y :: ys, ?_, ?_⟩
    · simp only [List.mapM_cons, bind_eq_ok, pure_eq_ok]
      exact ⟨y, hy, ys, hys, rfl⟩
    · intro z hz
      rcases List.mem_cons.mp hz with rfl | hz
      · exact ⟨x, List.mem_cons_self, hy⟩
      · obtain ⟨w, hw, hfw⟩ := hall z hz
        exact ⟨w, List.mem_cons_of_mem _ hw, hfw⟩

end Guards

end SorobanKit.HostInvocation
