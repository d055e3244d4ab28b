import Mathlib.Algebra.BigOperators.Group.Finset.Piecewise
import Mathlib.Algebra.BigOperators.Group.List.Basic
import Mathlib.Algebra.Order.BigOperators.Group.List
import Mathlib.Data.Int.Basic
import Mathlib.Tactic.Abel
import SorobanKit.HostInvocation

set_option autoImplicit false

/-!
# Token transfers made by a contract

A contract moves tokens by calling token contracts. What those calls answer is outside
the contract, so one invocation sees them as `TokenReplies`; a call that returns is
appended to the log of transfers with the purpose the caller gives it. An honest token
moves exactly the amount of every transfer that returned, which is what `replay` does.
-/
namespace SorobanKit.HostTransfers
open HostInvocation

structure Transfer (π : Type) where
  purpose : π
  token : Address
  source : Address
  target : Address
  amount : ℤ
  deriving DecidableEq, Repr

/-- What the token contracts answer during one invocation. `accepts` decides which transfer
    calls return, and may depend on every transfer made before. -/
structure TokenReplies (π : Type) where
  balance : Address → Address → ℤ
  accepts : List (Transfer π) → Transfer π → Bool
  responds : Address → Bool

variable {π : Type}

/-- A transfer call of a contract whose state keeps the log of its transfers by `record`. -/
def recordTransfer {ε σ : Type} (replies : TokenReplies π) (log : List (Transfer π))
    (x : Transfer π) (record : List (Transfer π) → σ) : Result ε σ := do
  trapUnless (replies.accepts log x)
  return record (log ++ [x])

section Calls
variable {ε σ : Type} {replies : TokenReplies π} {log : List (Transfer π)} {x : Transfer π}
  {record : List (Transfer π) → σ} {t : σ}

@[simp] theorem recordTransfer_eq_ok :
    (recordTransfer replies log x record : Result ε σ) = .ok t ↔
      replies.accepts log x ∧ record (log ++ [x]) = t := by
  simp only [recordTransfer, bind_eq_ok, trapUnless_eq_ok, pure_eq_ok, exists_const]

theorem recordTransfer_ok (h : (recordTransfer replies log x record : Result ε σ) = .ok t) :
    t = record (log ++ [x]) := (recordTransfer_eq_ok.mp h).2.symm

theorem recordTransfer_accepted (h : replies.accepts log x) :
    (recordTransfer replies log x record : Result ε σ) = .ok (record (log ++ [x])) :=
  recordTransfer_eq_ok.mpr ⟨h, rfl⟩

end Calls

/-- The amounts of the transfers that satisfy `p`. -/
def sumOf (p : Transfer π → Bool) (log : List (Transfer π)) : ℤ :=
  ((log.filter p).map Transfer.amount).sum

@[simp] theorem sumOf_nil (p : Transfer π → Bool) : sumOf p [] = 0 := rfl

@[simp] theorem sumOf_cons (p : Transfer π → Bool) (x : Transfer π) (log : List (Transfer π)) :
    sumOf p (x :: log) = (if p x then x.amount else 0) + sumOf p log := by
  unfold sumOf
  by_cases h : p x <;> simp [h]

@[simp] theorem sumOf_append (p : Transfer π → Bool) (xs ys : List (Transfer π)) :
    sumOf p (xs ++ ys) = sumOf p xs + sumOf p ys := by
  simp [sumOf]

theorem sumOf_congr {p q : Transfer π → Bool} {log : List (Transfer π)}
    (h : ∀ x ∈ log, p x = q x) : sumOf p log = sumOf q log := by
  unfold sumOf
  rw [List.filter_congr h]

theorem sumOf_eq_zero {p : Transfer π → Bool} {log : List (Transfer π)}
    (h : ∀ x ∈ log, p x = false) : sumOf p log = 0 := by
  have hnil : log.filter p = [] := by
    rw [List.filter_eq_nil_iff]
    intro x hx
    simp [h x hx]
  simp [sumOf, hnil]

abbrev Ledger := Address → Address → ℤ

def Transfer.apply (ledger : Ledger) (x : Transfer π) : Ledger := fun token holder =>
  ledger token holder
    + (if x.token = token ∧ x.target = holder then x.amount else 0)
    - (if x.token = token ∧ x.source = holder then x.amount else 0)

def replay (ledger : Ledger) (log : List (Transfer π)) : Ledger := log.foldl Transfer.apply ledger

def received (token holder : Address) (log : List (Transfer π)) : ℤ :=
  sumOf (fun x => x.token = token ∧ x.target = holder) log

def sent (token holder : Address) (log : List (Transfer π)) : ℤ :=
  sumOf (fun x => x.token = token ∧ x.source = holder) log

theorem replay_balance (ledger : Ledger) (log : List (Transfer π)) (token holder : Address) :
    replay ledger log token holder =
      ledger token holder + received token holder log - sent token holder log := by
  induction log generalizing ledger with
  | nil => simp [replay, received, sent]
  | cons x log ih =>
    change replay (x.apply ledger) log token holder = _
    rw [ih]
    simp only [Transfer.apply, received, sent, sumOf_cons, decide_eq_true_eq]
    abel

/-- What a holder gained in the transfers of the log. -/
def gain (token holder : Address) (log : List (Transfer π)) : ℤ :=
  received token holder log - sent token holder log

theorem replay_eq_gain (ledger : Ledger) (log : List (Transfer π)) (token holder : Address) :
    replay ledger log token holder = ledger token holder + gain token holder log := by
  rw [replay_balance, gain]
  abel

section Gain
variable {token holder other : Address}

@[simp] theorem gain_nil : gain token holder ([] : List (Transfer π)) = 0 := rfl

theorem gain_append (xs ys : List (Transfer π)) :
    gain token holder (xs ++ ys) = gain token holder xs + gain token holder ys := by
  unfold gain received sent
  rw [sumOf_append, sumOf_append]
  abel

theorem gain_cons (x : Transfer π) (xs : List (Transfer π)) :
    gain token holder (x :: xs) = gain token holder [x] + gain token holder xs := gain_append [x] xs

theorem gain_incoming (purpose : π) (amount : ℤ) (h : other ≠ holder) :
    gain token holder [⟨purpose, token, other, holder, amount⟩] = amount := by
  simp [gain, received, sent, h]

theorem gain_outgoing (purpose : π) (amount : ℤ) (h : other ≠ holder) :
    gain token holder [⟨purpose, token, holder, other, amount⟩] = -amount := by
  simp [gain, received, sent, h]

theorem gain_to_itself (purpose : π) (amount : ℤ) :
    gain token holder [⟨purpose, token, holder, holder, amount⟩] = 0 := by
  simp [gain, received, sent]

theorem gain_other_token {x : Transfer π} (h : x.token ≠ token) : gain token holder [x] = 0 := by
  simp [gain, received, sent, h]

theorem gain_incoming_ite (purpose : π) (paid : Address) (amount : ℤ) (h : other ≠ holder) :
    gain token holder [⟨purpose, paid, other, holder, amount⟩] =
      if paid = token then amount else 0 := by
  split
  · next heq =>
    rw [heq]
    exact gain_incoming purpose amount h
  · next hne => exact gain_other_token hne

theorem gain_outgoing_ite (purpose : π) (paid : Address) (amount : ℤ) (h : other ≠ holder) :
    gain token holder [⟨purpose, paid, holder, other, amount⟩] =
      if paid = token then -amount else 0 := by
  split
  · next heq =>
    rw [heq]
    exact gain_outgoing purpose amount h
  · next hne => exact gain_other_token hne

/-- A transfer that comes in from elsewhere or goes out to somewhere else, as its purpose says. -/
def Transfer.Crosses (incoming : π → Bool) (holder : Address) (x : Transfer π) : Prop :=
  if incoming x.purpose then x.source ≠ holder ∧ x.target = holder
  else x.source = holder ∧ x.target ≠ holder

/-- Without payments of the holder to itself its gain is what its books say. -/
theorem gain_of_crosses {incoming : π → Bool} {log : List (Transfer π)}
    (h : ∀ x ∈ log, x.Crosses incoming holder) :
    gain token holder log =
      sumOf (fun x => incoming x.purpose ∧ x.token = token) log -
        sumOf (fun x => ¬ incoming x.purpose ∧ x.token = token) log := by
  have hreceived : received token holder log =
      sumOf (fun x => incoming x.purpose ∧ x.token = token) log := by
    refine sumOf_congr fun x hx => ?_
    have hx := h x hx
    unfold Transfer.Crosses at hx
    split at hx
    · next hin => simp [hin, hx.2]
    · next hout => simp [hout, hx.2]
  have hsent : sent token holder log =
      sumOf (fun x => ¬ incoming x.purpose ∧ x.token = token) log := by
    refine sumOf_congr fun x hx => ?_
    have hx := h x hx
    unfold Transfer.Crosses at hx
    split at hx
    · next hin => simp [hin, hx.1]
    · next hout => simp [hout, hx.1]
  rw [gain, hreceived, hsent]

/-- Whoever pays out amounts of one token loses no more than them, and nothing else. -/
theorem gain_of_outgoing {paid : Address} {xs : List (Transfer π)}
    (h : ∀ x ∈ xs, x.token = paid ∧ x.source = holder ∧ 0 ≤ x.amount) :
    -(if paid = token then (xs.map Transfer.amount).sum else 0) ≤ gain token holder xs := by
  induction xs with
  | nil => simp
  | cons x xs ih =>
    obtain ⟨⟨hpaid, hsource, hnonneg⟩, hrest⟩ := List.forall_mem_cons.mp h
    have hone : -(if paid = token then x.amount else 0) ≤ gain token holder [x] := by
      obtain ⟨purpose, paid', source, target, amount⟩ := x
      dsimp only at hpaid hsource hnonneg ⊢
      subst hpaid hsource
      by_cases htarget : target = source
      · subst htarget
        have hzero : gain token target [⟨purpose, paid', target, target, amount⟩] = 0 := by
          by_cases hpaid : paid' = token
          · rw [hpaid, gain_to_itself]
          · exact gain_other_token hpaid
        rw [hzero]
        split <;> omega
      · rw [gain_outgoing_ite _ _ _ htarget]
        split <;> omega
    have hsum := ih hrest
    rw [gain_cons, List.map_cons, List.sum_cons]
    by_cases htoken : paid = token
    · rw [if_pos htoken] at hone hsum ⊢
      omega
    · rw [if_neg htoken] at hone hsum ⊢
      omega

/-- A payment takes no more from its source than its amount, of its own token. -/
theorem replay_payment (ledger : Ledger) (log : List (Transfer π)) {x : Transfer π}
    (hsource : x.source = holder) (hnonneg : 0 ≤ x.amount) :
    replay ledger log token holder - (if x.token = token then x.amount else 0) ≤
      replay ledger (log ++ [x]) token holder := by
  have hone : ∀ y ∈ [x], y.token = x.token ∧ y.source = holder ∧ 0 ≤ y.amount := by
    intro y hy
    rw [List.mem_singleton.mp hy]
    exact ⟨rfl, hsource, hnonneg⟩
  have hgain : -(if x.token = token then ([x].map Transfer.amount).sum else 0) ≤
      gain token holder [x] := gain_of_outgoing hone
  rw [List.map_singleton, List.sum_singleton] at hgain
  rw [replay_eq_gain, replay_eq_gain, gain_append]
  omega

theorem replay_own_payment (ledger : Ledger) (log : List (Transfer π)) {x : Transfer π}
    (htoken : x.token = token) (hsource : x.source = holder) (hnonneg : 0 ≤ x.amount) :
    replay ledger log token holder - x.amount ≤ replay ledger (log ++ [x]) token holder := by
  have hleft : _ ≤ replay ledger (log ++ [x]) token holder :=
    replay_payment ledger log hsource hnonneg
  rw [if_pos htoken] at hleft
  exact hleft

/-- Whoever has what some payments add up to can make them one after the other. -/
theorem replay_covers {ledger : Ledger} {past log : List (Transfer π)}
    (hout : ∀ x ∈ log, x.token = token ∧ x.source = holder ∧ 0 ≤ x.amount)
    (hcovered : (log.map Transfer.amount).sum ≤ replay ledger past token holder) {i : ℕ}
    (hi : i < log.length) : log[i].amount ≤ replay ledger (past ++ log.take i) token holder := by
  have hgain : -(if token = token then ((log.take i).map Transfer.amount).sum else 0) ≤
      gain token holder (log.take i) :=
    gain_of_outgoing fun x hx => hout x (List.mem_of_mem_take hx)
  rw [if_pos rfl] at hgain
  have hpart : ((log.take (i + 1)).map Transfer.amount).sum ≤ (log.map Transfer.amount).sum := by
    refine List.Sublist.sum_le_sum ((List.take_sublist _ _).map _) fun a ha => ?_
    obtain ⟨x, hx, rfl⟩ := List.mem_map.mp ha
    exact (hout x hx).2.2
  rw [List.take_succ_eq_append_getElem hi, List.map_append, List.sum_append, List.map_singleton,
    List.sum_singleton] at hpart
  rw [replay_eq_gain, gain_append]
  rw [replay_eq_gain] at hcovered
  omega

end Gain

/-- What is sent for some purpose is sent to one of the targets. -/
theorem sum_sumOf_target (p : Transfer π → Bool) {log : List (Transfer π)} {targets : Finset Address}
    (h : ∀ x ∈ log, x.target ∈ targets) :
    ∑ a ∈ targets, sumOf (fun x => p x && decide (x.target = a)) log = sumOf p log := by
  induction log with
  | nil => simp
  | cons x log ih =>
    obtain ⟨hx, hlog⟩ := List.forall_mem_cons.mp h
    simp only [sumOf_cons, Finset.sum_add_distrib, ih hlog]
    congr 1
    cases p x with
    | false => simp
    | true => simp [Finset.sum_ite_eq, hx]

/-- The token refuses to move a negative amount. -/
def TokenReplies.RejectsNegative (replies : TokenReplies π) (token : Address) : Prop :=
  ∀ log x, x.token = token → replies.accepts log x → 0 ≤ x.amount

/-- The token lets the holder spend no more than it holds. -/
def TokenReplies.NoOverdraft (replies : TokenReplies π) (ledger : Ledger) (token holder : Address) :
    Prop :=
  ∀ log x, x.token = token → x.source = holder → replies.accepts log x →
    x.amount ≤ replay ledger log token holder

/-- The token lets the holder spend what it holds. -/
def TokenReplies.Pays (replies : TokenReplies π) (ledger : Ledger) (log : List (Transfer π))
    (token holder : Address) : Prop :=
  ∀ x : Transfer π, x.token = token → x.source = holder → 0 ≤ x.amount →
    x.amount ≤ replay ledger log token holder → replies.accepts log x

/-- The tokens answer what the holder has. -/
def TokenReplies.Reports (replies : TokenReplies π) (ledger : Ledger) (log : List (Transfer π))
    (holder : Address) : Prop :=
  ∀ token, replies.balance token holder = replay ledger log token holder

/-- A token that moves what the source holds, and nothing else. -/
def honestReplies (ledger : Ledger) : TokenReplies π where
  balance := ledger
  accepts log x := 0 ≤ x.amount ∧ x.amount ≤ replay ledger log x.token x.source
  responds _ := true

theorem honestReplies_pays (ledger : Ledger) (log : List (Transfer π)) (token holder : Address) :
    (honestReplies ledger).Pays ledger log token holder := by
  intro x htoken hsource hnonneg hcovered
  subst htoken hsource
  exact decide_eq_true ⟨hnonneg, hcovered⟩

theorem honestReplies_rejectsNegative (ledger : Ledger) (token : Address) :
    (honestReplies ledger : TokenReplies π).RejectsNegative token := by
  intro log x _ haccepts
  exact (of_decide_eq_true haccepts).1

theorem honestReplies_noOverdraft (ledger : Ledger) (token holder : Address) :
    (honestReplies ledger : TokenReplies π).NoOverdraft ledger token holder := by
  intro log x htoken hsource haccepts
  subst htoken hsource
  exact (of_decide_eq_true haccepts).2

end SorobanKit.HostTransfers
