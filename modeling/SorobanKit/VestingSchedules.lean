import Mathlib.Data.List.TakeWhile
import SorobanKit.VestingMoves

set_option autoImplicit false

/-!
# The two kinds of schedule

A linear schedule takes its line through an `i128` product, and for a large amount the product does
not fit in the middle of the schedule. A tranche schedule rounds every tranche down on its own, and
what is rounded away is never released.
-/
namespace SorobanKit.Vesting
open CommonMath HostBalances HostInteger HostInvocation HostTransfers

section Linear
variable {amount vested vested' : ℤ} {cliffLedger endLedger ledger later now : ℕ}

theorem validateSchedule_ok (h : validateSchedule cliffLedger endLedger now = .ok ()) :
    cliffLedger < endLedger ∧ now < endLedger := by
  unfold validateSchedule at h
  rw [rejectIf_eq_ok] at h
  omega

theorem vestedAmount_isOk (hamount : 0 ≤ amount) :
    (∃ vested, vestedAmount amount cliffLedger endLedger ledger = .ok vested) ↔
      ledger < cliffLedger ∨ endLedger ≤ ledger ∨ InI128 (amount * (ledger - cliffLedger : ℕ)) := by
  unfold vestedAmount
  by_cases hearly : ledger < cliffLedger
  · simp [hearly]
  by_cases hend : endLedger ≤ ledger
  · simp [hearly, hend]
  have hproduct : 0 ≤ amount * (ledger - cliffLedger : ℕ) :=
    Int.mul_nonneg hamount (Int.natCast_nonneg _)
  have htotal : (0 : ℤ) < (endLedger - cliffLedger : ℕ) := by omega
  rw [if_neg hearly, if_neg hend]
  simp only [okOr_eq_ok, toOption_eq_some, mulDiv_eq_ok_iff hproduct htotal]
  constructor
  · rintro ⟨vested, hfits, -⟩
    exact .inr (.inr hfits)
  · intro hcond
    exact ⟨_, (hcond.resolve_left hearly).resolve_left hend, rfl⟩

theorem vestedAmount_bounds (hamount : 0 ≤ amount)
    (h : vestedAmount amount cliffLedger endLedger ledger = .ok vested) :
    0 ≤ vested ∧ vested ≤ amount := by
  rw [vestedAmount_ok h hamount]
  exact ⟨linear_nonneg hamount, linear_le hamount⟩

theorem vestedAmount_of_cliff (hamount : 0 ≤ amount) (hcliff : cliffLedger < endLedger)
    (hle : ledger ≤ cliffLedger)
    (h : vestedAmount amount cliffLedger endLedger ledger = .ok vested) : vested = 0 := by
  have helapsed : ledger - cliffLedger = 0 := by omega
  rw [vestedAmount_ok h hamount, linear]
  split
  · rfl
  · rw [if_neg (by omega), helapsed]
    simp

theorem vestedAmount_of_end (hamount : 0 ≤ amount) (hcliff : cliffLedger < endLedger)
    (hend : endLedger ≤ ledger)
    (h : vestedAmount amount cliffLedger endLedger ledger = .ok vested) : vested = amount := by
  rw [vestedAmount_ok h hamount, linear_of_end hcliff hend]

theorem vestedAmount_mono (hamount : 0 ≤ amount) (hle : ledger ≤ later)
    (h : vestedAmount amount cliffLedger endLedger ledger = .ok vested)
    (hlater : vestedAmount amount cliffLedger endLedger later = .ok vested') : vested ≤ vested' := by
  rw [vestedAmount_ok h hamount, vestedAmount_ok hlater hamount]
  exact linear_mono hamount hle

theorem product_fits (hamount : 0 ≤ amount) (hlt : ledger < endLedger)
    (h : InI128 (amount * (endLedger - 1 - cliffLedger : ℕ))) :
    InI128 (amount * (ledger - cliffLedger : ℕ)) := by
  have hnonneg : 0 ≤ amount * (ledger - cliffLedger : ℕ) :=
    Int.mul_nonneg hamount (Int.natCast_nonneg _)
  have hle : amount * (ledger - cliffLedger : ℕ) ≤ amount * (endLedger - 1 - cliffLedger : ℕ) :=
    Int.mul_le_mul_of_nonneg_left (by omega) hamount
  exact ⟨by omega, hle.trans h.2⟩

end Linear

/-- A linear schedule gives an amount at every ledger, between nothing and all of it, nothing up to
    the cliff, all of it from the end on and never less later, exactly when the amount times the
    ledgers from the cliff to one before the end fits an `i128`. -/
theorem vestedAmount_total_iff (amount : ℤ) (cliffLedger endLedger now : ℕ) (hamount : 0 < amount)
    (hvalid : validateSchedule cliffLedger endLedger now = .ok ()) :
    ((∀ ledger, ∃ vested, vestedAmount amount cliffLedger endLedger ledger = .ok vested ∧
          0 ≤ vested ∧ vested ≤ amount ∧ (ledger ≤ cliffLedger → vested = 0) ∧
          (endLedger ≤ ledger → vested = amount)) ∧
        ∀ ledger later vested vested', ledger ≤ later →
          vestedAmount amount cliffLedger endLedger ledger = .ok vested →
          vestedAmount amount cliffLedger endLedger later = .ok vested' → vested ≤ vested') ↔
      InI128 (amount * (endLedger - 1 - cliffLedger : ℕ)) := by
  obtain ⟨hcliff, -⟩ := validateSchedule_ok hvalid
  constructor
  · rintro ⟨hall, -⟩
    obtain ⟨vested, hok, -⟩ := hall (endLedger - 1)
    rcases (vestedAmount_isOk hamount.le).mp ⟨vested, hok⟩ with hearly | hend | hfits
    · omega
    · omega
    · exact hfits
  · intro hfits
    constructor
    · intro ledger
      have hcond : ledger < cliffLedger ∨ endLedger ≤ ledger ∨
          InI128 (amount * (ledger - cliffLedger : ℕ)) := by
        by_cases hend : endLedger ≤ ledger
        · exact .inr (.inl hend)
        · exact .inr (.inr (product_fits hamount.le (by omega) hfits))
      obtain ⟨vested, hok⟩ := (vestedAmount_isOk hamount.le).mpr hcond
      obtain ⟨hnonneg, hle⟩ := vestedAmount_bounds hamount.le hok
      exact ⟨vested, hok, hnonneg, hle, fun h => vestedAmount_of_cliff hamount.le hcliff h hok,
        fun h => vestedAmount_of_end hamount.le hcliff h hok⟩
    · intro ledger later vested vested' hle hok hlater
      exact vestedAmount_mono hamount.le hle hok hlater

/-- 1000 tokens over ninety ledgers. -/
theorem vestedAmount_total_iff_demo : vestedAmount 1000 10 100 100 = .ok 1000 := by
  have hfits : InI128 (1000 * (100 - 1 - 10 : ℕ)) := by decide
  have hall := ((vestedAmount_total_iff 1000 10 100 5 (by decide) rfl).mpr hfits).1
  obtain ⟨vested, hok, -, -, -, hend⟩ := hall 100
  rw [hok, hend (le_refl 100)]

/-- All the tokens an `i128` can count, vesting over three ledgers: the schedule is accepted, and at
    the third of them nothing can be computed. -/
theorem vestedAmount_overflow :
    validateSchedule 10 13 5 = .ok () ∧
      vestedAmount 170141183460469231731687303715884105727 10 13 12 =
        .error (.error .arithmeticError) :=
  ⟨rfl, rfl⟩

/-- `(ledger_sequence, percentage_bps)` -/
abbrev Tranche := ℕ × ℕ

/-- The loop of `vested_amount_tranches`, which breaks at the first tranche that is not due. -/
def vestedLoop (amount : ℤ) (ledger : ℕ) : List Tranche → ℤ → Result VestingError ℤ
  | [], vested => return vested
  | (trancheLedger, bps) :: tranches, vested =>
    if ledger < trancheLedger then return vested
    else do
      let release ← okOr (mulDiv amount bps 10000).toOption .arithmeticError
      let vested ← okOr (checkedAdd vested release) .arithmeticError
      vestedLoop amount ledger tranches vested

def vestedAmountTranches (amount : ℤ) (tranches : List Tranche) (ledger : ℕ) :
    Result VestingError ℤ := do
  let vested ← vestedLoop amount ledger tranches 0
  if amount < vested then return amount else return vested

/-- The loop of `validate_tranches` from the tranche with index `i` on. -/
def validateLoop (now : ℕ) : List Tranche → ℕ → ℕ → ℕ → Result VestingError Unit
  | [], _, _, _ => return ()
  | (trancheLedger, bps) :: tranches, i, prevLedger, totalBps => do
    rejectIf (bps = 0 ∨ 10000 < bps) .invalidSchedule
    rejectIf (0 < i ∧ trancheLedger ≤ prevLedger) .invalidSchedule
    rejectIf (trancheLedger ≤ now) .invalidSchedule
    let totalBps ← okOr (checkedAddU32 totalBps bps) .invalidSchedule
    rejectIf (10000 < totalBps) .invalidSchedule
    validateLoop now tranches (i + 1) trancheLedger totalBps

def validateTranches (tranches : List Tranche) (now : ℕ) : Result VestingError Unit := do
  rejectIf (tranches = []) .invalidSchedule
  validateLoop now tranches 0 0 0

/-- The basis points of all tranches. -/
def totalBps (tranches : List Tranche) : ℕ := (tranches.map Prod.snd).sum

theorem validateLoop_ok {now : ℕ} {tranches : List Tranche} {i prevLedger total : ℕ}
    (htotal : total ≤ 10000) (h : validateLoop now tranches i prevLedger total = .ok ()) :
    tranches.Pairwise (fun x y => x.1 < y.1) ∧ (0 < i → ∀ x ∈ tranches, prevLedger < x.1) ∧
      total + totalBps tranches ≤ 10000 := by
  induction tranches generalizing i prevLedger total with
  | nil => simpa [totalBps] using htotal
  | cons tranche tranches ih =>
    obtain ⟨trancheLedger, bps⟩ := tranche
    simp only [validateLoop, bind_eq_ok, rejectIf_eq_ok, okOr_eq_ok, checkedAddU32_eq_some] at h
    obtain ⟨-, hbps, -, hprev, -, hnow, sum, ⟨-, rfl⟩, -, hsum, h⟩ := h
    obtain ⟨hsorted, hlater, hrest⟩ := ih (by omega) h
    have hafter := hlater (by omega)
    refine ⟨List.pairwise_cons.mpr ⟨hafter, hsorted⟩, fun hi x hx => ?_, ?_⟩
    · rcases List.mem_cons.mp hx with rfl | hx
      · change prevLedger < trancheLedger
        omega
      · have hlt := hafter x hx
        omega
    · simp only [totalBps, List.map_cons, List.sum_cons] at hrest ⊢
      omega

theorem validateTranches_ok {tranches : List Tranche} {now : ℕ}
    (h : validateTranches tranches now = .ok ()) :
    tranches ≠ [] ∧ tranches.Pairwise (fun x y => x.1 < y.1) ∧ totalBps tranches ≤ 10000 := by
  simp only [validateTranches, bind_eq_ok, rejectIf_eq_ok] at h
  obtain ⟨-, hne, h⟩ := h
  obtain ⟨hsorted, -, htotal⟩ := validateLoop_ok (Nat.zero_le _) h
  rw [Nat.zero_add] at htotal
  exact ⟨hne, hsorted, htotal⟩

/-- The tranche's share of the amount, rounded down. -/
def share (amount : ℤ) (tranche : Tranche) : ℤ := amount * tranche.2 / 10000

def shares (amount : ℤ) (tranches : List Tranche) : ℤ := (tranches.map (share amount)).sum

def released (amount : ℤ) (tranches : List Tranche) (ledger : ℕ) : ℤ :=
  shares amount (tranches.takeWhile (fun x => x.1 ≤ ledger))

section Shares
variable {amount vested : ℤ} {tranches : List Tranche} {tranche : Tranche} {ledger later : ℕ}

@[simp] theorem shares_nil : shares amount [] = 0 := rfl

@[simp] theorem shares_cons :
    shares amount (tranche :: tranches) = share amount tranche + shares amount tranches := rfl

@[simp] theorem totalBps_cons : totalBps (tranche :: tranches) = tranche.2 + totalBps tranches := by
  simp [totalBps]

theorem share_nonneg (hamount : 0 ≤ amount) : 0 ≤ share amount tranche :=
  Int.ediv_nonneg (Int.mul_nonneg hamount (Int.natCast_nonneg _)) (by decide)

theorem shares_nonneg (hamount : 0 ≤ amount) : 0 ≤ shares amount tranches := by
  induction tranches with
  | nil => exact le_refl 0
  | cons tranche tranches ih =>
    have hshare : 0 ≤ share amount tranche := share_nonneg hamount
    rw [shares_cons]
    omega

theorem shares_mul_le : shares amount tranches * 10000 ≤ amount * totalBps tranches := by
  induction tranches with
  | nil => simp [totalBps]
  | cons tranche tranches ih =>
    have hshare : share amount tranche * 10000 ≤ amount * tranche.2 := Int.ediv_mul_le _ (by decide)
    rw [shares_cons, totalBps_cons, Nat.cast_add, Int.mul_add]
    omega

theorem shares_mul_eq : shares amount tranches * 10000 = amount * totalBps tranches ↔
    ∀ x ∈ tranches, (10000 : ℤ) ∣ amount * x.2 := by
  induction tranches with
  | nil => simp [totalBps]
  | cons tranche tranches ih =>
    have hrest : shares amount tranches * 10000 ≤ amount * totalBps tranches := shares_mul_le
    rw [List.forall_mem_cons, ← ih, shares_cons, totalBps_cons, Nat.cast_add, Int.mul_add, share]
    omega

theorem shares_le (hamount : 0 ≤ amount) (htotal : totalBps tranches ≤ 10000) :
    shares amount tranches ≤ amount := by
  have hle : shares amount tranches * 10000 ≤ amount * totalBps tranches := shares_mul_le
  have hmul : amount * totalBps tranches ≤ amount * 10000 :=
    Int.mul_le_mul_of_nonneg_left (by omega) hamount
  omega

theorem released_of_lt (hlt : ledger < tranche.1) : released amount (tranche :: tranches) ledger = 0 := by
  rw [released, List.takeWhile_cons_of_neg (by simpa using hlt), shares_nil]

theorem released_of_le (hle : tranche.1 ≤ ledger) : released amount (tranche :: tranches) ledger =
    share amount tranche + released amount tranches ledger := by
  rw [released, List.takeWhile_cons_of_pos (by simpa using hle), shares_cons, released]

theorem released_nonneg (hamount : 0 ≤ amount) : 0 ≤ released amount tranches ledger :=
  shares_nonneg hamount

theorem released_mono (hamount : 0 ≤ amount) (hle : ledger ≤ later) :
    released amount tranches ledger ≤ released amount tranches later := by
  induction tranches with
  | nil => exact le_refl _
  | cons tranche tranches ih =>
    by_cases hdue : tranche.1 ≤ ledger
    · rw [released_of_le hdue, released_of_le (hdue.trans hle)]
      omega
    · rw [released_of_lt (by omega)]
      exact released_nonneg hamount

theorem released_le_shares (hamount : 0 ≤ amount) :
    released amount tranches ledger ≤ shares amount tranches := by
  induction tranches with
  | nil => exact le_refl _
  | cons tranche tranches ih =>
    by_cases hdue : tranche.1 ≤ ledger
    · rw [released_of_le hdue, shares_cons]
      omega
    · rw [released_of_lt (by omega)]
      exact shares_nonneg hamount

theorem released_of_last (hsorted : tranches.Pairwise (fun x y => x.1 < y.1)) {last : Tranche}
    (hlast : tranches.getLast? = some last) (hle : last.1 ≤ ledger) :
    released amount tranches ledger = shares amount tranches := by
  have hdue : ∀ x ∈ tranches, x.1 ≤ ledger := by
    obtain ⟨front, rfl⟩ := List.getLast?_eq_some_iff.mp hlast
    intro x hx
    rcases List.mem_append.mp hx with hfront | hx
    · have hlt := (List.pairwise_append.mp hsorted).2.2 x hfront last (List.mem_singleton_self last)
      omega
    · rw [List.mem_singleton.mp hx]
      exact hle
  rw [released, List.takeWhile_eq_self_iff.mpr (by simpa using hdue)]

theorem vestedLoop_eq (hamount : 0 ≤ amount) (hfits : InI128 amount)
    (hmul : ∀ x ∈ tranches, InI128 (amount * x.2)) (hvested : 0 ≤ vested)
    (hroom : vested + shares amount tranches ≤ amount) :
    vestedLoop amount ledger tranches vested = .ok (vested + released amount tranches ledger) := by
  induction tranches generalizing vested with
  | nil => simp [vestedLoop, released, pure, Except.pure]
  | cons tranche tranches ih =>
    obtain ⟨trancheLedger, bps⟩ := tranche
    obtain ⟨hfirst, hrest⟩ := List.forall_mem_cons.mp hmul
    rw [shares_cons] at hroom
    have hshare : 0 ≤ share amount (trancheLedger, bps) := share_nonneg hamount
    have hshares : 0 ≤ shares amount tranches := shares_nonneg hamount
    have hproduct : 0 ≤ amount * bps := Int.mul_nonneg hamount (Int.natCast_nonneg _)
    have hdiv := (mulDiv_eq_ok_iff hproduct (show (0 : ℤ) < 10000 by decide)).mpr ⟨hfirst, rfl⟩
    have hsum : InI128 (vested + share amount (trancheLedger, bps)) := by
      unfold InI128 at hfits ⊢
      omega
    unfold vestedLoop
    by_cases hdue : ledger < trancheLedger
    · rw [if_pos hdue, released_of_lt hdue, add_zero]
      rfl
    · rw [if_neg hdue, released_of_le (Nat.le_of_not_lt hdue), ← add_assoc,
        ← ih hrest (by omega) (by omega), hdiv]
      have hadd : checkedAdd vested (amount * bps / 10000) =
          some (vested + share amount (trancheLedger, bps)) :=
        checkedAdd_eq_some.mpr ⟨hsum, rfl⟩
      simp only [Except.toOption, okOr, ok_bind, hadd]

theorem vestedAmountTranches_eq (hamount : 0 ≤ amount) (hfits : InI128 amount)
    (hmul : ∀ x ∈ tranches, InI128 (amount * x.2)) (htotal : totalBps tranches ≤ 10000) :
    vestedAmountTranches amount tranches ledger = .ok (released amount tranches ledger) := by
  have hle := shares_le hamount htotal
  have hreleased : released amount tranches ledger ≤ shares amount tranches :=
    released_le_shares hamount
  rw [vestedAmountTranches, vestedLoop_eq hamount hfits hmul (le_refl 0) (by omega), zero_add, ok_bind,
    if_neg (by omega)]
  rfl

end Shares

/-- An accepted tranche schedule of which every product fits gives an amount at every ledger, never
    more than all of it and never less later; and it is without residue, that is, whenever the basis
    points are all of 10000 the last tranche completes the amount, exactly when they are fewer or no
    tranche has a remainder. -/
theorem vestedAmountTranches_complete_iff (amount : ℤ) (tranches : List Tranche) (now : ℕ)
    (hamount : 0 < amount) (hfits : InI128 amount) (hvalid : validateTranches tranches now = .ok ())
    (hmul : ∀ x ∈ tranches, InI128 (amount * x.2)) :
    ((∀ ledger, ∃ vested, vestedAmountTranches amount tranches ledger = .ok vested ∧
          vested ≤ amount) ∧
        (∀ ledger later vested vested', ledger ≤ later →
          vestedAmountTranches amount tranches ledger = .ok vested →
          vestedAmountTranches amount tranches later = .ok vested' → vested ≤ vested') ∧
        ((tranches.map Prod.snd).sum = 10000 → ∀ last ledger, tranches.getLast? = some last →
          last.1 ≤ ledger → vestedAmountTranches amount tranches ledger = .ok amount)) ↔
      ((tranches.map Prod.snd).sum = 10000 → ∀ x ∈ tranches, (10000 : ℤ) ∣ amount * x.2) := by
  obtain ⟨hne, hsorted, htotal⟩ := validateTranches_ok hvalid
  have hvested : ∀ ledger, vestedAmountTranches amount tranches ledger =
      .ok (released amount tranches ledger) :=
    fun ledger => vestedAmountTranches_eq hamount.le hfits hmul htotal
  -- with all basis points given out, the shares are the amount where nothing was rounded away
  have hcomplete : (tranches.map Prod.snd).sum = 10000 →
      (shares amount tranches = amount ↔ ∀ x ∈ tranches, (10000 : ℤ) ∣ amount * x.2) := by
    intro hsum
    rw [← shares_mul_eq, totalBps, hsum]
    omega
  constructor
  · rintro ⟨-, -, hall⟩ hsum
    have hlast := List.getLast?_eq_some_getLast hne
    have hfull := hall hsum _ _ hlast (le_refl _)
    rw [hvested, released_of_last hsorted hlast (le_refl _)] at hfull
    exact (hcomplete hsum).mp (Except.ok.inj hfull)
  · intro hdvd
    refine ⟨fun ledger => ⟨_, hvested ledger, ?_⟩, ?_, ?_⟩
    · exact (released_le_shares hamount.le).trans (shares_le hamount.le htotal)
    · intro ledger later vested vested' hle hok hlater
      rw [hvested] at hok hlater
      cases hok
      cases hlater
      exact released_mono hamount.le hle
    · intro hsum last ledger hlast hle
      rw [hvested, released_of_last hsorted hlast hle, (hcomplete hsum).mpr (hdvd hsum)]

/-- Four quarters of a thousand. -/
theorem vestedAmountTranches_complete_iff_demo :
    vestedAmountTranches 1000 [(25, 2500), (50, 2500), (75, 2500), (100, 2500)] 100 = .ok 1000 := by
  have hiff := vestedAmountTranches_complete_iff 1000
    [(25, 2500), (50, 2500), (75, 2500), (100, 2500)] 5 (by decide) (by decide) rfl (by decide)
  exact (hiff.mpr fun _ => by decide).2.2 rfl (100, 2500) 100 rfl (le_refl 100)

/-- Three tranches of one token each time round to nothing: the schedule is accepted, and a thousand
    ledgers after its last tranche the token is still locked. -/
theorem vestedAmountTranches_residue :
    validateTranches [(25, 3000), (50, 3000), (75, 4000)] 5 = .ok () ∧
      ([(25, 3000), (50, 3000), (75, 4000)].map Prod.snd).sum = 10000 ∧
      vestedAmountTranches 1 [(25, 3000), (50, 3000), (75, 4000)] 1075 = .ok 0 :=
  ⟨rfl, rfl, rfl⟩

end SorobanKit.Vesting
