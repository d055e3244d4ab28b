import Mathlib.Tactic.Linarith
import SorobanKit.EscrowContract

set_option autoImplicit false

/-!
# The agreement behind the storage

A `Deal` is what an initialized escrow is about: parties, money, and the transfers made so
far. Its parts carry what the entry points checked when they stored them. `Move` says once
what a returning call can do to a deal; the invariants of whole runs are read off it.
-/
namespace SorobanKit.Escrow
open HostInvocation HostTransfers

structure FeeConfig where
  bps : ℕ
  treasury : Address
  bps_le : bps ≤ 10000

structure Schedule where
  list : List Milestone
  amount_pos : ∀ m ∈ list, 0 < m.amount

structure Basket where
  items : List (Address × ℤ)
  amount_pos : ∀ x ∈ items, 0 < x.2

structure Committee where
  members : List Address
  required : ℕ
  required_pos : 0 < required
  required_le : required ≤ members.length
  nodup : members.Nodup

structure Deal where
  buyer : Address
  seller : Address
  arbiter : Address
  token : Address
  amount : ℤ
  state : EscrowState
  schedule : Option Schedule
  basket : Option Basket
  committee : Option Committee
  approvals : List (Address × Bool)
  fee : Option FeeConfig
  log : List (Transfer Purpose)

def EscrowState.terminal : EscrowState → Bool
  | .completed | .refunded | .cancelled | .expiredRefunded => true
  | _ => false

/-- The states in which the deposit is in the contract. -/
def EscrowState.active : EscrowState → Bool
  | .funded | .delivered | .disputed => true
  | _ => false

def unreleased (milestones : List Milestone) : ℤ :=
  ((milestones.filter (fun m => ¬ m.released)).map Milestone.amount).sum

@[simp] theorem unreleased_nil : unreleased [] = 0 := rfl

@[simp] theorem unreleased_cons (m : Milestone) (ms : List Milestone) :
    unreleased (m :: ms) = (if m.released then 0 else m.amount) + unreleased ms := by
  unfold unreleased
  by_cases h : m.released <;> simp [h]

theorem unreleased_nonneg {ms : List Milestone} (h : ∀ m ∈ ms, 0 < m.amount) :
    0 ≤ unreleased ms := by
  induction ms with
  | nil => simp
  | cons m ms ih =>
    have hm := h m (by simp)
    have htail := ih (fun x hx => h x (by simp [hx]))
    rw [unreleased_cons]
    split <;> omega

theorem unreleased_eq_zero {ms : List Milestone} (h : ms.all (·.released)) :
    unreleased ms = 0 := by
  induction ms with
  | nil => rfl
  | cons m ms ih =>
    simp only [List.all_cons, Bool.and_eq_true] at h
    simp [h.1, ih h.2]

/-- Releasing one milestone lowers the unreleased sum by its amount. -/
theorem unreleased_set {ms : List Milestone} {k : ℕ} {m : Milestone} (hk : ms[k]? = some m)
    (hm : m.released = false) :
    unreleased (ms.set k { m with released := true }) = unreleased ms - m.amount := by
  induction ms generalizing k with
  | nil => simp at hk
  | cons x ms ih =>
    cases k with
    | zero =>
      simp only [List.getElem?_cons_zero, Option.some.injEq] at hk
      simp [hk, hm]
    | succ k =>
      simp only [List.getElem?_cons_succ] at hk
      simp only [List.set_cons_succ, unreleased_cons, ih hk]
      omega

def Schedule.releaseAll (S : Schedule) : Schedule where
  list := S.list.map fun m => { m with released := true }
  amount_pos := by
    intro m hm
    obtain ⟨x, hx, rfl⟩ := List.mem_map.mp hm
    exact S.amount_pos x hx

def Schedule.release (S : Schedule) (k : ℕ) (m : Milestone) (hm : m ∈ S.list) : Schedule where
  list := S.list.set k { m with released := true }
  amount_pos := by
    intro x hx
    rcases List.mem_or_eq_of_mem_set hx with hx | rfl
    · exact S.amount_pos x hx
    · exact S.amount_pos m hm

namespace Deal

def required (D : Deal) : ℕ :=
  match D.committee with
  | some C => C.required
  | none => 1

/-- What a full settlement pays out: `sync_disputable_amount`. -/
def owed (D : Deal) : ℤ :=
  match D.schedule with
  | some S => unreleased S.list
  | none => D.amount

def feeOn (D : Deal) (gross : ℤ) : ℤ :=
  match D.fee with
  | some f => (gross * f.bps).tdiv 10000
  | none => 0

/-- A gross release of one token: the seller's net part, then the treasury's fee. -/
def releasePay (D : Deal) (self token : Address) (gross : ℤ) : List (Transfer Purpose) :=
  ⟨.release, token, self, D.seller, gross - D.feeOn gross⟩ ::
    match D.fee with
    | some f =>
      if 0 < D.feeOn gross then [⟨.fee, token, self, f.treasury, D.feeOn gross⟩] else []
    | none => []

def refundPay (D : Deal) (self token : Address) (amount : ℤ) : List (Transfer Purpose) :=
  [⟨.refund, token, self, D.buyer, amount⟩]

def depositPay (D : Deal) (self token : Address) (amount : ℤ) : List (Transfer Purpose) :=
  [⟨.deposit, token, D.buyer, self, amount⟩]

/-- Nothing is paid when nothing is due. -/
def ifDue (amount : ℤ) (payments : List (Transfer Purpose)) : List (Transfer Purpose) :=
  if 0 < amount then payments else []

/-- One milestone: `gross` goes to the seller's side, the rest back to the buyer. -/
def stagePay (D : Deal) (self : Address) (allocated gross : ℤ) : List (Transfer Purpose) :=
  ifDue gross (D.releasePay self D.token gross) ++
    ifDue (allocated - gross) (D.refundPay self D.token (allocated - gross))

/-- The deal after a full payout. -/
def close (D : Deal) (final : EscrowState) (payments : List (Transfer Purpose)) : Deal :=
  { D with
    state := final, amount := 0, schedule := D.schedule.map Schedule.releaseAll,
    log := D.log ++ payments }

/-- The calls that pay the whole remainder of one token back to the buyer, with the states
    they start and end in. All but `refund_multi_token` are authorized by the buyer. -/
def RefundBy (D : Deal) (i : Invocation) (final : EscrowState) : Prop :=
  match i.call with
  | .requestRefund | .requestPartialRefund =>
    D.buyer ∈ i.auths ∧ D.state = .funded ∧ final = .refunded
  | .claimExpiredRefund => D.buyer ∈ i.auths ∧ D.state = .funded ∧ final = .expiredRefunded
  | .claimDisputeTimeout => D.buyer ∈ i.auths ∧ D.state = .disputed ∧ final = .refunded
  | .mutualCancel _ _ =>
    D.buyer ∈ i.auths ∧ (D.state = .funded ∨ D.state = .delivered) ∧ final = .cancelled
  | .refundMultiToken => D.basket = none ∧ D.state = .funded ∧ final = .refunded
  | _ => False

/-- The calls that release one milestone and the gross amount they release of it. -/
def StageBy (D : Deal) (i : Invocation) (k : ℕ) (m : Milestone) (gross : ℤ) : Prop :=
  match i.call with
  | .releaseMilestone caller index =>
    caller ∈ i.auths ∧ (caller = D.buyer ∨ caller = D.arbiter) ∧ index = k ∧ gross = m.amount
  | .approveMilestonePartial index amount =>
    D.buyer ∈ i.auths ∧ index = k ∧ gross = amount ∧ 0 ≤ amount ∧ amount ≤ m.amount
  | _ => False

end Deal

/-- The calls that can return without a change to the deal. -/
def Call.quiet : Call → Bool
  | .extendDeadline _ | .approveDispute _ _ | .pause | .unpause | .bump => true
  | _ => false

open Deal

inductive Move (self : Address) (i : Invocation) : Deal → Deal → Prop
  | idle (D : Deal) (hcall : i.call.quiet) : Move self i D D
  | configured (D : Deal) (fee : FeeConfig)
      (hcall : i.call = .setFeeConfig fee.bps fee.treasury) :
      Move self i D { D with fee := some fee }
  | recorded (D : Deal) (C : Committee) (arbiter : Address) (verdict : Bool)
      (hcall : i.call = .approveDispute arbiter verdict) (hstate : D.state = .disputed)
      (hC : D.committee = some C) (hmem : arbiter ∈ C.members) (hauth : arbiter ∈ i.auths)
      (hnew : ∀ a ∈ D.approvals, a.1 ≠ arbiter) (hlt : D.approvals.length + 1 < C.required) :
      Move self i D { D with approvals := D.approvals ++ [(arbiter, verdict)] }
  | updated (D : Deal) (amount : ℤ) (hcall : i.call = .updateAmount amount) (hpos : 0 < amount)
      (hstate : D.state = .created) : Move self i D { D with amount := amount }
  | cancelled (D : Deal) (hcall : i.call = .cancel) (hstate : D.state = .created) :
      Move self i D { D with state := .cancelled }
  | funded (D : Deal) (hcall : i.call = .fund ∨ i.call = .fundMultiToken ∧ D.basket = none)
      (hauth : D.buyer ∈ i.auths) (hstate : D.state = .created) :
      Move self i D { D with
        state := .funded, log := D.log ++ D.depositPay self D.token D.amount }
  | fundedBasket (D : Deal) (B : Basket) (hcall : i.call = .fundMultiToken)
      (hB : D.basket = some B) (hauth : D.buyer ∈ i.auths) (hstate : D.state = .created) :
      Move self i D { D with
        state := .funded, log := D.log ++ B.items.flatMap fun x => D.depositPay self x.1 x.2 }
  | delivered (D : Deal) (hcall : i.call = .markDelivered) (hstate : D.state = .funded) :
      Move self i D { D with state := .delivered }
  | disputed (D : Deal) (caller : Address) (hcall : i.call = .raiseDispute caller)
      (hstate : D.state = .funded ∨ D.state = .delivered) :
      Move self i D { D with state := .disputed }
  | releasedPart (D : Deal) (gross : ℤ) (hcall : i.call = .releasePartial gross)
      (hauth : D.buyer ∈ i.auths) (hstate : D.state = .funded) (hpos : 0 < gross)
      (hle : gross ≤ D.amount) :
      Move self i D { D with
        amount := D.amount - gross, log := D.log ++ D.releasePay self D.token gross }
  | releasedStage (D : Deal) (S : Schedule) (k : ℕ) (m : Milestone) (gross : ℤ)
      (hcall : D.StageBy i k m gross) (hstate : D.state = .funded) (hS : D.schedule = some S)
      (hm : m ∈ S.list) (hk : S.list[k]? = some m) (hopen : m.released = false) :
      Move self i D { D with
        schedule := some (S.release k m hm), amount := D.amount - m.amount,
        state := if (S.release k m hm).list.all (·.released) then .completed else .funded,
        log := D.log ++ D.stagePay self m.amount gross }
  | released (D : Deal)
      (hcall : i.call = .approveDelivery ∧ D.buyer ∈ i.auths ∨
        i.call = .releaseMultiToken ∧ D.basket = none)
      (hstate : D.state = .delivered) :
      Move self i D (D.close .completed (ifDue D.owed (D.releasePay self D.token D.owed)))
  | releasedBasket (D : Deal) (B : Basket) (hcall : i.call = .releaseMultiToken)
      (hB : D.basket = some B) (hstate : D.state = .delivered) :
      Move self i D { D with
        state := .completed, amount := 0,
        log := D.log ++ B.items.flatMap fun x => D.releasePay self x.1 x.2 }
  | refunded (D : Deal) (final : EscrowState) (hcall : D.RefundBy i final) :
      Move self i D (D.close final (ifDue D.owed (D.refundPay self D.token D.owed)))
  | refundedBasket (D : Deal) (B : Basket) (hcall : i.call = .refundMultiToken)
      (hB : D.basket = some B) (hstate : D.state = .funded) :
      Move self i D { D with
        state := .refunded, amount := 0,
        log := D.log ++ B.items.flatMap fun x => D.refundPay self x.1 x.2 }

end SorobanKit.Escrow
