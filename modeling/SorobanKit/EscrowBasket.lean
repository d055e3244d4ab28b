import Mathlib.Algebra.Order.BigOperators.Group.List
import Mathlib.Tactic.Ring
import SorobanKit.EscrowMilestones

set_option autoImplicit false

/-!
# Baskets of tokens

A basket escrow has a list of tokens with their amounts, and the first of them once more in
the fields of a single-token escrow. The multi-token entry points move the whole list, the
others only the lead token, so mixing them leaves tokens behind. The condition of this
module lets a single-token call settle or fund a basket only where both mean the same.
-/
namespace SorobanKit.Escrow
open HostInvocation HostTransfers HostRuns Deal

/-- What the basket lists of one token; a token may be listed more than once. -/
def listed (token : Address) (items : List (Address × ℤ)) : ℤ :=
  ((items.filter (fun x => x.1 = token)).map Prod.snd).sum

/-- What was released of one token, with the fees taken from it. -/
def released (token : Address) (log : List (Transfer Purpose)) : ℤ :=
  moved .release token log + moved .fee token log

/-- The contract has gained what is listed less what was released, and nothing funded stays
    behind. -/
def BasketHeld (self : Address) (s : State) : Prop :=
  ∃ state items, s.state = some state ∧ basket s = some items ∧
    (state = .funded ∨ state = .delivered → ∀ token ∈ items.map Prod.fst,
      gain token self s.transfers = listed token items - released token s.transfers) ∧
    (state.terminal → ∀ token ∈ items.map Prod.fst, gain token self s.transfers ≤ 0)

/-- Every entry of the basket is of the token the single-token calls move. -/
def LeadOnly (s : State) : Prop :=
  ∀ items, basket s = some items → ∀ x ∈ items, s.tokenContract = some x.1

/-- A single-token settlement pays out all that the contract has. -/
def LeadCovers (self : Address) (s : State) : Prop :=
  LeadOnly s ∧ ∀ token amount, s.tokenContract = some token → s.amount = some amount →
    gain token self s.transfers ≤ amount

def KeepsBasket (self : Address) (s : State) (i : Invocation) : Prop :=
  match i.call with
  | .fund => s.state = some .created → LeadOnly s ∧
      ∀ items, basket s = some items → s.amount = some (items.map Prod.snd).sum
  | .approveDelivery => s.state = some .delivered → LeadCovers self s
  | .requestRefund | .requestPartialRefund | .claimExpiredRefund =>
    s.state = some .funded → LeadCovers self s
  | .mutualCancel _ _ => s.state = some .funded ∨ s.state = some .delivered → LeadCovers self s
  | .claimDisputeTimeout => s.state = some .disputed → LeadCovers self s
  | _ => True

section Sums
variable {t token self : Address} {D : Deal}

@[simp] theorem listed_nil : listed t [] = 0 := rfl

@[simp] theorem listed_cons (x : Address × ℤ) (items : List (Address × ℤ)) :
    listed t (x :: items) = (if x.1 = t then x.2 else 0) + listed t items := by
  unfold listed
  by_cases h : x.1 = t <;> simp [h]

theorem listed_lead {items : List (Address × ℤ)} (h : ∀ x ∈ items, x.1 = token) :
    listed t items = if token = t then (items.map Prod.snd).sum else 0 := by
  induction items with
  | nil => simp
  | cons x items ih =>
    rw [listed_cons, ih (fun y hy => h y (by simp [hy])), h x (by simp)]
    split <;> simp

@[simp] theorem released_nil : released t [] = 0 := rfl

@[simp] theorem released_append (xs ys : List (Transfer Purpose)) :
    released t (xs ++ ys) = released t xs + released t ys := by
  simp only [released, moved_append]
  omega

theorem released_depositPay (amount : ℤ) : released t (D.depositPay self token amount) = 0 := by
  simp [released, moved, depositPay]

theorem released_refundPay (amount : ℤ) : released t (D.refundPay self token amount) = 0 := by
  simp [released, moved, refundPay]

theorem released_releasePay (gross : ℤ) :
    released t (D.releasePay self token gross) = -held t (D.releasePay self token gross) := by
  have hout := moved_out_eq t (D.releasePay self token gross)
  have hdeposit : moved .deposit t (D.releasePay self token gross) = 0 := by
    refine sumOf_eq_zero fun x hx => ?_
    obtain ⟨hp | hp, _⟩ := mem_releasePay hx <;> simp [hp]
  have hrefund : moved .refund t (D.releasePay self token gross) = 0 := by
    refine sumOf_eq_zero fun x hx => ?_
    obtain ⟨hp | hp, _⟩ := mem_releasePay hx <;> simp [hp]
  unfold released
  omega

theorem released_ifDue (amount : ℤ) (payments : List (Transfer Purpose)) :
    released t (ifDue amount payments) = if 0 < amount then released t payments else 0 := by
  unfold ifDue
  split <;> simp

theorem flatMap_count (F : List (Transfer Purpose) → ℤ) (hnil : F [] = 0)
    (happend : ∀ xs ys, F (xs ++ ys) = F xs + F ys) (c : ℤ) {items : List (Address × ℤ)}
    {f : Address × ℤ → List (Transfer Purpose)}
    (h : ∀ x ∈ items, F (f x) = c * (if x.1 = t then x.2 else 0)) :
    F (items.flatMap f) = c * listed t items := by
  induction items with
  | nil => simp [hnil]
  | cons x items ih =>
    rw [List.flatMap_cons, happend, h x (by simp), ih (fun y hy => h y (by simp [hy])),
      listed_cons]
    ring

theorem held_basket_deposit (items : List (Address × ℤ)) :
    held t (items.flatMap fun x => D.depositPay self x.1 x.2) = listed t items := by
  rw [flatMap_count (held t) held_nil held_append 1 (fun x _ => by rw [held_depositPay]; ring)]
  ring

theorem held_basket_refund (items : List (Address × ℤ)) :
    held t (items.flatMap fun x => D.refundPay self x.1 x.2) = -listed t items := by
  rw [flatMap_count (held t) held_nil held_append (-1) (fun x _ => by rw [held_refundPay]; ring)]
  ring

theorem held_basket_release (B : Basket) :
    held t (B.items.flatMap fun x => D.releasePay self x.1 x.2) = -listed t B.items := by
  rw [flatMap_count (held t) held_nil held_append (-1)
    (fun x hx => by rw [held_releasePay (le_of_lt (B.amount_pos x hx))]; ring)]
  ring

theorem released_basket_deposit (items : List (Address × ℤ)) :
    released t (items.flatMap fun x => D.depositPay self x.1 x.2) = 0 := by
  rw [flatMap_count (t := t) (released t) released_nil released_append 0
    (fun x _ => by rw [released_depositPay]; ring)]
  ring

theorem released_basket_refund (items : List (Address × ℤ)) :
    released t (items.flatMap fun x => D.refundPay self x.1 x.2) = 0 := by
  rw [flatMap_count (t := t) (released t) released_nil released_append 0
    (fun x _ => by rw [released_refundPay]; ring)]
  ring

theorem released_basket_release (B : Basket) :
    released t (B.items.flatMap fun x => D.releasePay self x.1 x.2) = listed t B.items := by
  rw [flatMap_count (released t) released_nil released_append 1 (fun x hx => by
    rw [released_releasePay, held_releasePay (le_of_lt (B.amount_pos x hx))]; ring)]
  ring

theorem listed_nonneg (B : Basket) : 0 ≤ listed t B.items := by
  unfold listed
  refine List.sum_nonneg fun x hx => ?_
  obtain ⟨item, hitem, rfl⟩ := List.mem_map.mp hx
  exact le_of_lt (B.amount_pos item (List.mem_of_mem_filter hitem))

end Sums

structure OnBasket (D : Deal) : Prop where
  schedule : D.schedule = none
  basket : ∃ B, D.basket = some B ∧
    (D.state.active → ∀ t, held t D.log = listed t B.items - released t D.log)
  created : D.state = .created → D.log = []
  terminal : D.state.terminal → ∀ t, held t D.log ≤ 0
  released_nonneg : ∀ t, 0 ≤ released t D.log

section Invariant
variable {self : Address} {i : Invocation} {s : State} {D D' : Deal} {B : Basket}

theorem LeadOnly.items (h : LeadOnly s) (hs : Represents s D) (hB : D.basket = some B) :
    ∀ x ∈ B.items, x.1 = D.token := by
  intro x hx
  have hlead := h B.items (by rw [hs.basket, hB]; rfl) x hx
  rw [hs.token] at hlead
  exact (Option.some.inj hlead).symm

theorem LeadCovers.settles (h : LeadCovers self s) (hs : Represents s D) (hclear : Clear self D)
    (hB : D.basket = some B) (hheld : ∀ t, held t D.log = listed t B.items - released t D.log)
    (hreleased : ∀ t, 0 ≤ released t D.log) (t : Address) :
    held t D.log - (if D.token = t then max D.amount 0 else 0) ≤ 0 := by
  have hcovers := h.2 D.token D.amount hs.token hs.amount
  rw [hs.log, gain_eq_held hclear.log] at hcovers
  have ht := hheld t
  have hrel := hreleased t
  rw [listed_lead (h.1.items hs hB)] at ht
  by_cases htoken : D.token = t
  · subst htoken
    simp only [↓reduceIte]
    omega
  · simp only [htoken, ↓reduceIte] at ht ⊢
    omega

theorem Deal.RefundBy.covers {final : EscrowState} (h : D.RefundBy i final)
    (hs : Represents s D) (hkeep : KeepsBasket self s i) (hB : D.basket = some B) :
    LeadCovers self s := by
  unfold RefundBy at h
  unfold KeepsBasket at hkeep
  cases hcall : i.call <;> simp only [hcall] at h hkeep
  case refundMultiToken =>
    rw [hB] at h
    exact absurd h.1 (by simp)
  case mutualCancel =>
    exact hkeep (h.2.1.imp (fun hst => by rw [hs.state, hst]) (fun hst => by rw [hs.state, hst]))
  all_goals exact hkeep (by rw [hs.state, h.2.1])

theorem onBasket_closed (final : EscrowState) (payments : List (Transfer Purpose))
    (hD : OnBasket D) (hfinal : final.terminal)
    (hheld : ∀ t, held t (D.log ++ payments) ≤ 0)
    (hreleased : ∀ t, 0 ≤ released t payments) :
    OnBasket { D with state := final, amount := 0, log := D.log ++ payments } := by
  obtain ⟨B, hB, _⟩ := hD.basket
  refine ⟨hD.schedule, ⟨B, hB, ?_⟩, ?_, fun _ => hheld, ?_⟩
  · intro hactive
    revert hfinal hactive
    cases final <;> simp [EscrowState.terminal, EscrowState.active]
  · intro hcreated
    have hstate : final = .created := hcreated
    rw [hstate] at hfinal
    cases hfinal
  · intro t
    have hbefore := hD.released_nonneg t
    have hnew := hreleased t
    simp only [released_append]
    omega

theorem onBasket_active (state : EscrowState) (amount : ℤ) (payments : List (Transfer Purpose))
    (hD : OnBasket D) (hactive : state.active) (hB : D.basket = some B)
    (hheld : ∀ t, held t (D.log ++ payments) = listed t B.items - released t (D.log ++ payments))
    (hreleased : ∀ t, 0 ≤ released t payments) :
    OnBasket { D with state := state, amount := amount, log := D.log ++ payments } := by
  refine ⟨hD.schedule, ⟨B, hB, fun _ => hheld⟩, ?_, ?_, ?_⟩
  · intro hcreated
    have hstate : state = .created := hcreated
    rw [hstate] at hactive
    cases hactive
  · intro hover
    revert hover hactive
    cases state <;> simp [EscrowState.terminal, EscrowState.active]
  · intro t
    have hbefore := hD.released_nonneg t
    have hnew := hreleased t
    simp only [released_append]
    omega

theorem onBasket_still (state : EscrowState) (hD : OnBasket D) (hbefore : D.state.active)
    (hactive : state.active) : OnBasket { D with state := state } := by
  obtain ⟨B, hB, hheld⟩ := hD.basket
  have hstill := onBasket_active state D.amount [] hD hactive hB
    (fun t => by simpa using hheld hbefore t) (fun t => by simp)
  rw [List.append_nil] at hstill
  exact hstill

theorem released_release_nonneg (D : Deal) {gross : ℤ} (h : 0 ≤ gross) (token t : Address) :
    0 ≤ released t (D.releasePay self token gross) := by
  rw [released_releasePay, held_releasePay h]
  split <;> omega

theorem OnBasket.owed (hD : OnBasket D) : D.owed = D.amount := by
  simp [Deal.owed, hD.schedule]

theorem OnBasket.close_eq (hD : OnBasket D) (final : EscrowState)
    (payments : List (Transfer Purpose)) :
    D.close final payments =
      { D with state := final, amount := 0, log := D.log ++ payments } := by
  simp only [close, hD.schedule, Option.map_none]

theorem OnBasket.funded (hD : OnBasket D) (hs : Represents s D) (hcall : i.call = .fund)
    (hkeep : KeepsBasket self s i) (hstate : D.state = .created) :
    OnBasket { D with state := .funded, log := D.log ++ D.depositPay self D.token D.amount } := by
  obtain ⟨B, hB, _⟩ := hD.basket
  have hitems : Escrow.basket s = some B.items := by rw [hs.basket, hB]; rfl
  simp only [KeepsBasket, hcall] at hkeep
  obtain ⟨hlead, hamount⟩ := hkeep (by rw [hs.state, hstate])
  have htotal : D.amount = (B.items.map Prod.snd).sum := by
    have hsum := hamount B.items hitems
    rw [hs.amount] at hsum
    exact Option.some.inj hsum
  refine onBasket_active _ _ _ hD rfl hB (fun t => ?_) (fun t => ?_)
  · simp only [hD.created hstate, List.nil_append, held_depositPay, released_depositPay,
      listed_lead (hlead.items hs hB), htotal]
    omega
  · rw [released_depositPay]

theorem OnBasket.fundedBasket (hD : OnBasket D) (hB : D.basket = some B)
    (hstate : D.state = .created) :
    OnBasket { D with
      state := .funded, log := D.log ++ B.items.flatMap fun x => D.depositPay self x.1 x.2 } := by
  refine onBasket_active _ _ _ hD rfl hB (fun t => ?_) (fun t => ?_)
  · simp only [hD.created hstate, List.nil_append, held_basket_deposit, released_basket_deposit]
    omega
  · rw [released_basket_deposit]

theorem OnBasket.releasedPart (hD : OnBasket D) {gross : ℤ} (hstate : D.state = .funded)
    (hpos : 0 < gross) :
    OnBasket { D with
      amount := D.amount - gross, log := D.log ++ D.releasePay self D.token gross } := by
  obtain ⟨B, hB, hheld⟩ := hD.basket
  have hbefore : D.state.active := by rw [hstate]; rfl
  refine onBasket_active _ _ _ hD hbefore hB (fun t => ?_) (fun t => ?_)
  · have ht := hheld hbefore t
    simp only [held_append, released_append, released_releasePay]
    omega
  · exact released_release_nonneg D (le_of_lt hpos) D.token t

theorem OnBasket.releasedLead (hD : OnBasket D) (hs : Represents s D) (hclear : Clear self D)
    (hcovers : LeadCovers self s) (hstate : D.state = .delivered) :
    OnBasket (D.close .completed (ifDue D.owed (D.releasePay self D.token D.owed))) := by
  obtain ⟨B, hB, hheld⟩ := hD.basket
  have hbefore : D.state.active := by rw [hstate]; rfl
  rw [hD.close_eq, hD.owed]
  refine onBasket_closed _ _ hD rfl (fun t => ?_) (fun t => ?_)
  · have hsettles := hcovers.settles hs hclear hB (hheld hbefore) hD.released_nonneg t
    rw [held_append, held_release_due]
    omega
  · rw [released_ifDue]
    split
    · exact released_release_nonneg D (by omega) D.token t
    · exact le_refl 0

theorem OnBasket.refundedLead (hD : OnBasket D) (hs : Represents s D) (hclear : Clear self D)
    (hkeep : KeepsBasket self s i) {final : EscrowState} (hcall : D.RefundBy i final) :
    OnBasket (D.close final (ifDue D.owed (D.refundPay self D.token D.owed))) := by
  obtain ⟨B, hB, hheld⟩ := hD.basket
  have hcovers := hcall.covers hs hkeep hB
  have hbefore := hcall.closes.1
  rw [hD.close_eq, hD.owed]
  refine onBasket_closed _ _ hD hcall.final_terminal (fun t => ?_) (fun t => ?_)
  · have hsettles := hcovers.settles hs hclear hB (hheld hbefore) hD.released_nonneg t
    rw [held_append, held_refund_due]
    omega
  · rw [released_ifDue, released_refundPay]
    split <;> exact le_refl 0

theorem OnBasket.held_eq (hD : OnBasket D) (hB : D.basket = some B) (hactive : D.state.active)
    (t : Address) : held t D.log = listed t B.items - released t D.log := by
  obtain ⟨B', hB', hheld⟩ := hD.basket
  have hsame : B' = B := Option.some.inj (hB'.symm.trans hB)
  rw [← hsame]
  exact hheld hactive t

theorem OnBasket.releasedBasket (hD : OnBasket D) (hB : D.basket = some B)
    (hstate : D.state = .delivered) :
    OnBasket { D with
      state := .completed, amount := 0,
      log := D.log ++ B.items.flatMap fun x => D.releasePay self x.1 x.2 } := by
  refine onBasket_closed _ _ hD rfl (fun t => ?_) (fun t => ?_)
  · have ht := hD.held_eq hB (by rw [hstate]; rfl) t
    have hreleased := hD.released_nonneg t
    rw [held_append, held_basket_release]
    omega
  · rw [released_basket_release]
    exact listed_nonneg B

theorem OnBasket.refundedBasket (hD : OnBasket D) (hB : D.basket = some B)
    (hstate : D.state = .funded) :
    OnBasket { D with
      state := .refunded, amount := 0,
      log := D.log ++ B.items.flatMap fun x => D.refundPay self x.1 x.2 } := by
  refine onBasket_closed _ _ hD rfl (fun t => ?_) (fun t => ?_)
  · have ht := hD.held_eq hB (by rw [hstate]; rfl) t
    have hreleased := hD.released_nonneg t
    rw [held_append, held_basket_refund]
    omega
  · rw [released_basket_refund]

theorem onBasket_move (hs : Represents s D) (hclear : Clear self D) (hD : OnBasket D)
    (hkeep : KeepsBasket self s i) (h : Move self i D D') : OnBasket D' := by
  obtain ⟨B, hB, _⟩ := hD.basket
  cases h with
  | idle => exact hD
  | configured | recorded | updated => exact { hD with }
  | cancelled hcall hstate =>
    have hlog := hD.created hstate
    have hclosed := onBasket_closed .cancelled [] hD rfl
      (fun t => by simp [hlog]) (fun t => by simp)
    rw [List.append_nil] at hclosed
    exact { hclosed with }
  | funded hcall hauth hstate =>
    rcases hcall with hcall | ⟨_, hnone⟩
    · exact hD.funded hs hcall hkeep hstate
    · rw [hB] at hnone
      cases hnone
  | fundedBasket B' hcall hB' hauth hstate => exact hD.fundedBasket hB' hstate
  | delivered hcall hstate => exact onBasket_still .delivered hD (by rw [hstate]; rfl) rfl
  | disputed caller hcall hstate =>
    have hbefore : D.state.active := by
      rcases hstate with hstate | hstate <;> rw [hstate] <;> rfl
    exact onBasket_still .disputed hD hbefore rfl
  | releasedPart gross hcall hauth hstate hpos hle => exact hD.releasedPart hstate hpos
  | releasedStage S k m gross hcall hstate hS =>
    rw [hD.schedule] at hS
    cases hS
  | released hcall hstate =>
    rcases hcall with ⟨hcall, hauth⟩ | ⟨_, hnone⟩
    · simp only [KeepsBasket, hcall] at hkeep
      exact hD.releasedLead hs hclear (hkeep (by rw [hs.state, hstate])) hstate
    · rw [hB] at hnone
      cases hnone
  | refunded final hcall => exact hD.refundedLead hs hclear hkeep hcall
  | releasedBasket B' hcall hB' hstate => exact hD.releasedBasket hB' hstate
  | refundedBasket B' hcall hB' hstate => exact hD.refundedBasket hB' hstate

end Invariant

theorem basketHeld_of_onBasket {self : Address} {s : State} {D : Deal} (hs : Represents s D)
    (hclear : Clear self D) (hD : OnBasket D) : BasketHeld self s := by
  obtain ⟨B, hB, hheld⟩ := hD.basket
  refine ⟨D.state, B.items, hs.state, by rw [hs.basket, hB]; rfl, ?_, ?_⟩
  · intro hstate token _
    rw [hs.log, gain_eq_held hclear.log]
    refine hheld ?_ token
    rcases hstate with hstate | hstate <;> rw [hstate] <;> rfl
  · intro hover token _
    rw [hs.log, gain_eq_held hclear.log]
    exact hD.terminal hover token

/-- In every run that meets the condition, the contract of a basket escrow has what is listed
    less what was released, and nothing of what was funded once the escrow is over. -/
theorem basket_custody (d : Deployment) (i₀ : Invocation) (s₀ : State) (is : List Invocation)
    (admin buyer seller arbiter : Address) (tokenContracts : List Address)
    (tokenAmounts : List ℤ) (deadline timeout : ℕ) (hash : Option Hash)
    (hinit : i₀.call = .initializeWithTokens admin buyer seller arbiter tokenContracts
      tokenAmounts deadline timeout hash)
    (hcreate : exec d i₀ State.empty = .ok s₀)
    (h : Along (exec d) (fun s i => NoSettle d s i ∧ KeepsBasket d.contractAddress s i ∧
      PaysOutside d.contractAddress s i) s₀ is) :
    BasketHeld d.contractAddress (run d s₀ is) := by
  obtain ⟨D₀, hs₀, hopen⟩ := exec_opening (by rw [hinit]; rfl) hcreate
  rw [hinit] at hopen
  have hD₀ : OnBasket D₀ := by
    have hitems := hopen.basket
    simp only [Option.map_eq_some_iff] at hitems
    obtain ⟨B, hB, _⟩ := hitems
    refine ⟨hopen.schedule, ⟨B, hB, ?_⟩, fun _ => hopen.log, ?_, by simp [hopen.log]⟩
    all_goals
      rw [hopen.state]
      intro hstate
      cases hstate
  obtain ⟨D, hs, hclear, hD⟩ := run_deal (J := fun D => Clear d.contractAddress D ∧ OnBasket D)
    (fun s i D D' hs hD hkeep hmove =>
      ⟨clear_move hs hD.1 hkeep.2 hmove, onBasket_move hs hD.1 hD.2 hkeep.1 hmove⟩) hs₀
    ⟨clear_opening hopen, hD₀⟩ h
  exact basketHeld_of_onBasket hs hclear hD

def demoOther : Address := ⟨11⟩

def demoBasket : Invocation :=
  demoCall [demoAdmin] (.initializeWithTokens demoAdmin demoBuyer demoSeller demoArbiter
    [demoToken, demoOther] [100, 50] 100 50 none)

def demoBasketState : State := step (exec demoDeployment) State.empty demoBasket

def demoBasketRun : List Invocation :=
  [demoCall [demoBuyer] .fundMultiToken, demoCall [demoBuyer] (.releasePartial 30),
    demoCall [demoSeller] .markDelivered]

theorem basket_custody_demo :
    (run demoDeployment demoBasketState demoBasketRun).state = some .delivered ∧
      BasketHeld demoSelf (run demoDeployment demoBasketState demoBasketRun) := by
  have hpayees : PayeesOutside demoSelf demoBasketState := ⟨by decide +kernel, by decide +kernel⟩
  exact ⟨by decide +kernel, basket_custody demoDeployment demoBasket demoBasketState demoBasketRun
    _ _ _ _ _ _ _ _ _ rfl rfl
    ⟨⟨rfl, trivial, fun _ => by decide +kernel⟩, ⟨rfl, trivial, fun _ => hpayees⟩,
      ⟨rfl, trivial, trivial⟩, trivial⟩⟩

def demoBasketOwnTreasury : List Invocation :=
  [demoCall [demoBuyer] .fundMultiToken, demoCall [demoAdmin] (.setFeeConfig 250 demoSelf),
    demoCall [demoSeller] .markDelivered, demoCall [demoBuyer] .releaseMultiToken]

/-- Funded as a basket and approved as a single token: 50 of the second token stay behind. In
    the second run the fees are paid to the escrow itself and stay there. -/
theorem approveDelivery_strands_basket :
    ¬ BasketHeld demoSelf (run demoDeployment demoBasketState
      [demoCall [demoBuyer] .fundMultiToken, demoCall [demoSeller] .markDelivered,
        demoCall [demoBuyer] .approveDelivery]) ∧
    ¬ BasketHeld demoSelf (run demoDeployment demoBasketState demoBasketOwnTreasury) := by
  constructor
  · rintro ⟨state, items, hstate, hitems, _, hover⟩
    have hstate' : state = .completed := Option.some.inj (hstate.symm.trans rfl)
    have hitems' : items = [(demoToken, 100), (demoOther, 50)] :=
      Option.some.inj (hitems.symm.trans rfl)
    subst hstate' hitems'
    have hleft := hover rfl demoOther (by decide)
    revert hleft
    decide +kernel
  · rintro ⟨state, items, hstate, hitems, _, hover⟩
    have hstate' : state = .completed := Option.some.inj (hstate.symm.trans rfl)
    have hitems' : items = [(demoToken, 100), (demoOther, 50)] :=
      Option.some.inj (hitems.symm.trans rfl)
    subst hstate' hitems'
    have hleft := hover rfl demoToken (by decide)
    revert hleft
    decide +kernel

end SorobanKit.Escrow
