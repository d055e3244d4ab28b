import SorobanKit.HostServers
import SorobanKit.TokenHoldings

set_option autoImplicit false

/-!
# The token as other contracts call it

The token moves exactly what it is told to, and from ledger 1 on it takes nothing from a
contract that only signs its own transfers, unless the admin does.
-/
namespace SorobanKit.Token
open HostBalances HostInvocation HostRuns HostServers HostTransfers

def tokenTransfer (d : Deployment) (ctx : Context) (source target : Address) (amount : ℤ)
    (s : State) : Option State :=
  (exec d { ctx with call := .transfer source target amount } s).toOption

def bank (d : Deployment) : Bank State where
  address := d.contractAddress
  transfer := tokenTransfer d
  holds := balance

/-- The two calls by which an admin takes tokens from an account. -/
def Call.seizes (account : Address) : Call → Bool
  | .adminBurn owner _ => owner = account
  | .confiscateBlacklisted owner _ => owner = account
  | _ => false

/-- A direct call from ledger 1 on that the contract at `house` has not signed, other than an
    admin's seizure of its tokens. -/
def Outsider (house : Address) (i : Invocation) : Prop :=
  0 < i.sequence ∧ house ∉ i.auths ∧ i.call.seizes house = false

section Server
variable {d : Deployment} {house : Address}

theorem tokenTransfer_eq_some {ctx : Context} {source target : Address} {amount : ℤ} {s t : State} :
    tokenTransfer d ctx source target amount s = some t ↔
      exec d { ctx with call := .transfer source target amount } s = .ok t := by
  unfold tokenTransfer
  cases exec d { ctx with call := .transfer source target amount } s with
  | error e => simp [Except.toOption]
  | ok u => simp [Except.toOption]

theorem bank_exact (d : Deployment) : (bank d).Exact := by
  intro ctx source target amount s t h holder
  have hok : exec d { ctx with call := .transfer source target amount } s = .ok t :=
    tokenTransfer_eq_some.mp h
  have hmoved : transfer d ctx source target amount s = .ok t := hok
  change balance t holder = balance s holder + _ - _
  rcases transferImpl_balance (transfer_ok hmoved) with ⟨rfl, rfl⟩ | ⟨hne, _, hdebit, hcredit, hother⟩
  · omega
  · by_cases hsource : source = holder
    · subst hsource
      rw [hdebit, if_neg (Ne.symm hne), if_pos rfl]
      omega
    · by_cases htarget : target = holder
      · subst htarget
        rw [hcredit, if_neg hsource, if_pos rfl]
        omega
      · rw [hother holder (Ne.symm hsource) (Ne.symm htarget), if_neg hsource, if_neg htarget]
        omega

theorem onlyTransfers_signing {π : Type} {ctx : Context} (hseq : 0 < ctx.sequence)
    (hhouse : house ∉ ctx.auths) (x : Transfer π) :
    OnlyTransfers house
      { signing house ctx x with call := .transfer x.source x.target x.amount } := by
  refine ⟨hseq, fun hauth => ?_⟩
  by_cases hsource : x.source = house
  · exact ⟨x.target, x.amount, by rw [hsource]⟩
  · simp only [signing, if_neg hsource] at hauth
    exact (hhouse hauth).elim

theorem tokenTransfer_unapproved {π : Type} {ctx : Context} (hseq : 0 < ctx.sequence)
    (hhouse : house ∉ ctx.auths) (x : Transfer π) {s t : State} (hs : Unapproved house s)
    (h : (bank d).transfer (signing house ctx x) x.source x.target x.amount s = some t) :
    Unapproved house t :=
  unapproved_step hs (onlyTransfers_signing hseq hhouse x) (tokenTransfer_eq_some.mp h)

theorem outsider_keeps {i : Invocation} {s t : State} (hi : Outsider house i) (hs : Unapproved house s)
    (h : exec d i s = .ok t) : Unapproved house t ∧ balance s house ≤ balance t house := by
  obtain ⟨hseq, hhouse, hseizes⟩ := hi
  have honly : OnlyTransfers house i := ⟨hseq, fun hauth => (hhouse hauth).elim⟩
  refine ⟨unapproved_step hs honly h, ?_⟩
  by_contra hless
  rcases sentOrSeized_of_ok hs honly h (not_le.mp hless) with
    ⟨_, _, hauth, _⟩ | ⟨_, _, _, _, _, hcall | hcall, _⟩
  · exact hhouse hauth
  · simp [hcall, Call.seizes] at hseizes
  · simp [hcall, Call.seizes] at hseizes

/-- A use of the token in which a contract signed nothing but its own transfers. -/
theorem run_unapproved {before : List Invocation} (hbefore : ∀ i ∈ before, OnlyTransfers house i) :
    Unapproved house (run d State.empty before) :=
  run_invariant_along (P := fun _ i => True ∧ OnlyTransfers house i)
    (fun _ _ _ hs hP ht => unapproved_step hs hP.2 ht) (unapproved_empty _)
    ((along_true _ _ _).and_forall hbefore)

end Server

section Joint
variable {π σ ι ε : Type} {C : Client π σ ι ε} {Q : σ → ι → Prop}

/-- What the calls of a joint run have to be: those on the contract meet `Q` and are signed by
    others, those on the token are no seizure of the contract's tokens. -/
def Fair (d : Deployment) (C : Client π σ ι ε) (Q : σ → ι → Prop) (x : σ × State) :
    JointCall ι Invocation → Prop
  | .client i => Q x.1 (answers C (bank d) i x.1 x.2) ∧ 0 < (C.context i).sequence ∧
      C.house ∉ (C.context i).auths
  | .bank j => Outsider C.house j

/-- Next to the token, the contract holds at least what it began with and what its transfers
    gained it. -/
theorem house_holds (hC : C.Lawful Q) (d : Deployment) {x : σ × State}
    {js : List (JointCall ι Invocation)} (hstart : Unapproved C.house x.2)
    (hfair : Along (jointExec C (bank d) (exec d)) (Fair d C Q) x js) :
    Unapproved C.house (HostRuns.run (jointExec C (bank d) (exec d)) x js).2 ∧
      balance x.2 C.house +
          gain d.contractAddress C.house (C.log (HostRuns.run (jointExec C (bank d) (exec d)) x js).1) ≤
        balance (HostRuns.run (jointExec C (bank d) (exec d)) x js).2 C.house +
          gain d.contractAddress C.house (C.log x.1) :=
  joint_holds (P := Fair d C Q) (I := Unapproved C.house) hC (bank_exact d)
    (fun _ _ hi => hi.1)
    (fun _ _ hi x _ _ hb h => tokenTransfer_unapproved hi.2.1 hi.2.2 x hb h)
    (fun _ _ _ _ hj hb h => outsider_keeps hj hb h) hstart hfair

/-- The same for one step. -/
theorem house_step (hC : C.Lawful Q) (d : Deployment) {x y : σ × State} {j : JointCall ι Invocation}
    (hx : Unapproved C.house x.2) (hj : Fair d C Q x j)
    (hok : jointExec C (bank d) (exec d) j x = .ok y) :
    Unapproved C.house y.2 ∧ balance x.2 C.house + gain d.contractAddress C.house (C.log y.1) ≤
      balance y.2 C.house + gain d.contractAddress C.house (C.log x.1) := by
  have hstep : HostRuns.run (jointExec C (bank d) (exec d)) x [j] = y := run_cons_of_ok hok []
  rw [← hstep]
  exact house_holds hC d hx ⟨hj, trivial⟩

/-- A contract that has made no transfer yet holds what its transfers will gain it. -/
theorem house_gains (hC : C.Lawful Q) (d : Deployment) {s : σ} {b : State} {y : σ × State}
    {js : List (JointCall ι Invocation)} (hstart : Unapproved C.house b) (hempty : C.log s = [])
    (hfair : Along (jointExec C (bank d) (exec d)) (Fair d C Q) (s, b) js)
    (hy : HostRuns.run (jointExec C (bank d) (exec d)) (s, b) js = y) :
    balance b C.house + gain d.contractAddress C.house (C.log y.1) ≤ balance y.2 C.house := by
  have hholds := (house_holds (x := (s, b)) hC d hstart hfair).2
  rw [hy, hempty, gain_nil, add_zero] at hholds
  exact hholds

/-- Balances of the token fit and none is negative, whatever the contract has it do. -/
theorem joint_sound (hC : C.Lawful Q) (d : Deployment) {s : σ} {b : State} {y : σ × State}
    {js : List (JointCall ι Invocation)} (hstart : Fits b ∧ NonnegEntries b.balance)
    (hfair : Along (jointExec C (bank d) (exec d)) (Fair d C Q) (s, b) js)
    (hy : HostRuns.run (jointExec C (bank d) (exec d)) (s, b) js = y) :
    Fits y.2 ∧ NonnegEntries y.2.balance := by
  have hstep : ∀ i b c, Fits b ∧ NonnegEntries b.balance → exec d i b = .ok c →
      Fits c ∧ NonnegEntries c.balance :=
    fun i b c hb h => ⟨fits_step hb.1 h, nonneg_step hb.2 h⟩
  rw [← hy]
  refine run_invariant_along (I := fun y => Fits y.2 ∧ NonnegEntries y.2.balance) ?_ hstart hfair
  rintro ⟨s, b⟩ j y hb hj hok
  cases j with
  | client i =>
    obtain ⟨_, new, _, hsettle⟩ := jointExec_client hC hj.1 hok
    have hkeep : ∀ (x : Transfer π) b c, Fits b ∧ NonnegEntries b.balance →
        (bank d).transfer (signing C.house (C.context i) x) x.source x.target x.amount b = some c →
        Fits c ∧ NonnegEntries c.balance :=
      fun x b c hb h => hstep _ _ _ hb (tokenTransfer_eq_some.mp h)
    exact settle_keeps hkeep hb hsettle
  | bank j =>
    obtain ⟨_, hdirect⟩ := jointExec_bank hok
    exact hstep j b y.2 hb hdirect

end Joint

end SorobanKit.Token
