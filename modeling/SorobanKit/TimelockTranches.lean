import Mathlib.Algebra.BigOperators.Intervals
import Mathlib.Algebra.Order.BigOperators.Group.Finset
import SorobanKit.TimelockMoves

set_option autoImplicit false

/-!
# Tranches

`release` flags the tranches it pays and `cancel` refunds what is not flagged, but
`release_partial` flags nothing: it only takes its amount off the locked balance, which
nobody reads. The three agree as long as a partial release stays within what earlier ones
left, and no full release or cancellation follows one.
-/
namespace SorobanKit.Timelock
open HostInteger HostInvocation HostTransfers HostRuns

def trancheAmount (s : State) (i : ℕ) : ℤ := ((s.tranche i).map ReleaseTranche.amount).getD 0

def isDue (s : State) (sequence i : ℕ) : Bool :=
  (s.tranche i).any fun tranche => tranche.releaseLedger ≤ sequence

theorem trancheAmount_of_stored {s : State} {i : ℕ} {tranche : ReleaseTranche}
    (h : s.tranche i = some tranche) : trancheAmount s i = tranche.amount := by
  rw [trancheAmount, h]
  rfl

theorem isDue_of_stored {s : State} {i : ℕ} {tranche : ReleaseTranche}
    (h : s.tranche i = some tranche) (sequence : ℕ) :
    isDue s sequence i = decide (tranche.releaseLedger ≤ sequence) := by
  rw [isDue, h]
  rfl

def isSet (flags : ℕ → Option Bool) (i : ℕ) : Bool := (flags i).getD false

/-- The amounts of the first `count` tranches that satisfy `p`. -/
def sumWhere (s : State) (count : ℕ) (p : ℕ → Bool) : ℤ :=
  ∑ i ∈ Finset.range count, if p i then trancheAmount s i else 0

section Sums
variable {s : State} {count : ℕ} {p q : ℕ → Bool}

theorem sumWhere_succ (s : State) (count : ℕ) (p : ℕ → Bool) :
    sumWhere s (count + 1) p = sumWhere s count p + if p count then trancheAmount s count else 0 :=
  Finset.sum_range_succ ..

theorem sumWhere_congr (h : ∀ i < count, p i = q i) : sumWhere s count p = sumWhere s count q := by
  apply Finset.sum_congr rfl
  intro i hi
  rw [h i (Finset.mem_range.mp hi)]

theorem sumWhere_mono (hnonneg : ∀ i < count, 0 ≤ trancheAmount s i)
    (h : ∀ i < count, p i = true → q i = true) : sumWhere s count p ≤ sumWhere s count q := by
  apply Finset.sum_le_sum
  intro i hi
  have hi := Finset.mem_range.mp hi
  have hle := hnonneg i hi
  by_cases hp : p i = true
  · rw [if_pos hp, if_pos (h i hi hp)]
  · rw [if_neg hp]
    split
    · exact hle
    · exact le_refl 0

theorem sumWhere_nonneg (hnonneg : ∀ i < count, 0 ≤ trancheAmount s i) :
    0 ≤ sumWhere s count p := by
  apply Finset.sum_nonneg
  intro i hi
  split
  · exact hnonneg i (Finset.mem_range.mp hi)
  · exact le_refl 0

theorem sumWhere_add_le (hnonneg : ∀ i < count, 0 ≤ trancheAmount s i) {n : ℕ} (hn : n < count) :
    sumWhere s n p + trancheAmount s n ≤ sumWhere s count fun _ => true := by
  have hpast : sumWhere s n p ≤ sumWhere s n fun _ => true :=
    sumWhere_mono (fun i hi => hnonneg i (by omega)) fun _ _ _ => rfl
  have hprefix : sumWhere s (n + 1) (fun _ => true) ≤ sumWhere s count fun _ => true := by
    unfold sumWhere
    apply Finset.sum_le_sum_of_subset_of_nonneg (Finset.range_mono hn)
    intro i hi _
    exact hnonneg i (Finset.mem_range.mp hi)
  rw [sumWhere_succ, if_pos rfl] at hprefix
  omega

theorem sumWhere_or (s : State) (count : ℕ) (p q : ℕ → Bool) :
    sumWhere s count (fun i => p i || q i) =
      sumWhere s count p + sumWhere s count (fun i => !p i && q i) := by
  unfold sumWhere
  rw [← Finset.sum_add_distrib]
  apply Finset.sum_congr rfl
  intro i _
  by_cases hp : p i = true <;> by_cases hq : q i = true <;> simp [hp, hq]

end Sums

section Loops
variable {env : Env} {s : State} {count : ℕ}

/-- What the sweep of the first `count` tranches paid and flagged: all that was due and not
    flagged before. It ends in `Released` only when nothing is left. -/
structure Swept (env : Env) (s : State) (flags : ℕ → Option Bool) (count : ℕ) (sweep : Sweep) :
    Prop where
  total_eq : sweep.totalReleased =
    sumWhere s count (fun i => !isSet flags i && isDue s env.sequence i)
  flagged : ∀ i, isSet sweep.trancheReleased i =
    (isSet flags i || (decide (i < count) && isDue s env.sequence i))
  complete : sweep.allReleased = true → ∀ i < count, isSet sweep.trancheReleased i = true

theorem isSet_update (flags : ℕ → Option Bool) (n i : ℕ) :
    isSet (Function.update flags n (some true)) i = if i = n then true else isSet flags i := by
  unfold isSet
  by_cases hi : i = n
  · subst hi
    rw [Function.update_self, if_pos rfl]
    rfl
  · rw [Function.update_of_ne hi, if_neg hi]

/-- The tranche at `n` decides about itself only. -/
theorem Swept.flagged_succ {flags : ℕ → Option Bool} {n : ℕ} {acc sweep : Sweep}
    (h : Swept env s flags n acc)
    (hlast : isSet sweep.trancheReleased n = (isSet flags n || isDue s env.sequence n))
    (hpast : ∀ i, i ≠ n → isSet sweep.trancheReleased i = isSet acc.trancheReleased i) (i : ℕ) :
    isSet sweep.trancheReleased i =
      (isSet flags i || (decide (i < n + 1) && isDue s env.sequence i)) := by
  by_cases hi : i = n
  · subst hi
    rw [hlast]
    simp
  · have hbelow : decide (i < n + 1) = decide (i < n) := decide_eq_decide.mpr (by omega)
    rw [hpast i hi, h.flagged i, hbelow]

theorem Swept.step {flags : ℕ → Option Bool} {n : ℕ} {acc sweep : Sweep}
    (h : Swept env s flags n acc) (hstep : sweepStep env s acc n = .ok sweep) :
    Swept env s flags (n + 1) sweep := by
  have hflag : isSet acc.trancheReleased n = isSet flags n := by
    rw [h.flagged n]
    simp
  simp only [sweepStep, bind_eq_ok, okOr_eq_ok] at hstep
  obtain ⟨tranche, htranche, hstep⟩ := hstep
  have hdue := isDue_of_stored htranche env.sequence
  have hamount := trancheAmount_of_stored htranche
  rw [show (acc.trancheReleased n).getD false = isSet flags n from hflag] at hstep
  split at hstep
  · -- due and not flagged: paid now
    next hnew =>
    simp only [bind_eq_ok, unwrap_eq_ok, checkedAdd_eq_some, pure_eq_ok] at hstep
    obtain ⟨_, ⟨_, rfl⟩, rfl⟩ := hstep
    refine ⟨?_, h.flagged_succ ?_ fun i hi => ?_, fun hdone i hi => ?_⟩
    · rw [sumWhere_succ, ← h.total_eq, hdue, hamount]
      simp [hnew.1, hnew.2]
    · rw [isSet_update, if_pos rfl, hdue]
      simp [hnew.2]
    · rw [isSet_update, if_neg hi]
    · rw [isSet_update]
      by_cases hin : i = n
      · rw [if_pos hin]
      · rw [if_neg hin]
        exact h.complete hdone i (by omega)
  · next hold =>
    split at hstep
    · -- not flagged and not due: something is left
      next hopen =>
      rw [pure_eq_ok] at hstep
      subst hstep
      have hlate : ¬ tranche.releaseLedger ≤ env.sequence := fun hle => hold ⟨hopen, hle⟩
      refine ⟨?_, h.flagged_succ ?_ fun i hi => rfl, fun hdone => by cases hdone⟩
      · rw [sumWhere_succ, ← h.total_eq, hdue]
        simp [hlate]
      · rw [hflag, hdue]
        simp [hopen, hlate]
    · -- flagged before
      next hset =>
      rw [pure_eq_ok] at hstep
      subst hstep
      have hset : isSet flags n = true := by simpa using hset
      refine ⟨?_, h.flagged_succ ?_ fun i hi => rfl, fun hdone i hi => ?_⟩
      · rw [sumWhere_succ, ← h.total_eq]
        simp [hset]
      · rw [hflag]
        simp [hset]
      · by_cases hin : i = n
        · subst hin
          rw [hflag, hset]
        · exact h.complete hdone i (by omega)

theorem sweep_ok {flags : ℕ → Option Bool} {sweep : Sweep}
    (h : (List.range count).foldlM (sweepStep env s) { trancheReleased := flags } = .ok sweep) :
    Swept env s flags count sweep := by
  refine foldlM_range_ok ⟨rfl, fun i => ?_, fun _ i hi => ?_⟩ (fun _ _ _ _ hpast => hpast.step) h
  · simp
  · omega

/-- The saturation of `claimable_amount_internal` is never reached. -/
theorem claimable_ok (hnonneg : ∀ i < count, 0 ≤ trancheAmount s i)
    (hrange : InI128 (sumWhere s count fun _ => true)) {claimable : ℤ}
    (h : (List.range count).foldlM (claimableStep env s) 0 = .ok claimable) :
    claimable =
      sumWhere s count (fun i => !isSet s.trancheReleased i && isDue s env.sequence i) := by
  refine foldlM_range_ok (I := fun n acc => acc =
    sumWhere s n (fun i => !isSet s.trancheReleased i && isDue s env.sequence i)) rfl
    (fun n acc next hn hacc hstep => ?_) h
  simp only [claimableStep, bind_eq_ok, okOr_eq_ok] at hstep
  obtain ⟨tranche, htranche, hstep⟩ := hstep
  have hdue := isDue_of_stored htranche env.sequence
  have hamount := trancheAmount_of_stored htranche
  rw [sumWhere_succ, ← hacc, hdue]
  split at hstep
  · next hnew =>
    have hset : isSet s.trancheReleased n = false := hnew.1
    -- the claim so far and the tranche are part of the whole, which fits
    have hin : InI128 (acc + tranche.amount) := by
      have hpast : 0 ≤ acc := by
        rw [hacc]
        exact sumWhere_nonneg fun i hi => hnonneg i (by omega)
      have hlast := hnonneg n hn
      have hpart : acc + tranche.amount ≤ sumWhere s count fun _ => true := by
        rw [hacc, ← hamount]
        exact sumWhere_add_le hnonneg hn
      unfold InI128 at hrange ⊢
      omega
    rw [pure_eq_ok, saturatingAdd, saturate_of_inI128 hin] at hstep
    simp [hset, hnew.2, hamount, hstep]
  · next hold =>
    rw [pure_eq_ok] at hstep
    have hskip : (!isSet s.trancheReleased n &&
        decide (tranche.releaseLedger ≤ env.sequence)) = false := by
      rw [Bool.eq_false_iff]
      intro htrue
      rw [Bool.and_eq_true, Bool.not_eq_true', decide_eq_true_eq] at htrue
      exact hold htrue
    rw [if_neg (by simpa using hskip), add_zero]
    exact hstep.symm

theorem alreadyReleased_ok {alreadyReleased : ℤ}
    (h : (List.range count).foldlM (alreadyReleasedStep s) 0 = .ok alreadyReleased) :
    alreadyReleased = sumWhere s count (isSet s.trancheReleased) := by
  refine foldlM_range_ok (I := fun n acc => acc = sumWhere s n (isSet s.trancheReleased)) rfl
    (fun n acc next _ hacc hstep => ?_) h
  rw [sumWhere_succ, ← hacc]
  unfold alreadyReleasedStep at hstep
  split at hstep
  · next hset =>
    simp only [bind_eq_ok, okOr_eq_ok, checkedAdd_eq_some] at hstep
    obtain ⟨tranche, htranche, _, rfl⟩ := hstep
    have hset : isSet s.trancheReleased n = true := hset
    rw [if_pos hset, trancheAmount_of_stored htranche]
  · next hset =>
    rw [pure_eq_ok] at hstep
    have hset : ¬ isSet s.trancheReleased n = true := hset
    rw [if_neg hset, add_zero]
    exact hstep.symm

end Loops

def totalOf (tranches : List ReleaseTranche) : ℤ := (tranches.map ReleaseTranche.amount).sum

/-- The tranches that have matured at `ledger`. -/
def matured (tranches : List ReleaseTranche) (ledger : ℕ) : ℤ :=
  (tranches.map fun tranche => if tranche.releaseLedger ≤ ledger then tranche.amount else 0).sum

/-- A payout that leaves the records of the tranches consistent. A full release is made in
    the locked token, it and a cancellation come before any partial release, and a partial
    release takes no more than earlier ones left of what is due. -/
def SafePayout (s : State) (i : Invocation) : Prop :=
  match i.call with
  | .release token => s.token = some token ∧ s.amount = some (unclaimed s token)
  | .releasePartial token amount => s.token = some token →
    ∀ total claimable, s.amount = some total →
      claimableAmountInternal i.toEnv token s = .ok claimable →
      amount.1 ≤ claimable - (total - unclaimed s token)
  | .cancel => ∀ token, s.token = some token → s.amount = some (unclaimed s token)
  | _ => True

def Call.isDeposit : Call → Bool
  | .deposit .. => true
  | _ => false

/-- What initialization fixed for good. -/
structure Setup (token : Address) (tranches : List ReleaseTranche) (s : State) : Prop where
  plain : Plain s
  token_eq : s.token = some token
  amount_eq : s.amount = some (totalOf tranches)
  count_eq : s.trancheCount = some tranches.length
  stored : ∀ i < tranches.length, s.tranche i = tranches[i]?

theorem Setup.frame {token : Address} {tranches : List ReleaseTranche} {s t : State}
    (h : Setup token tranches s)
    (ht : t = { s with
      beneficiary := t.beneficiary, state := t.state, trancheReleased := t.trancheReleased,
      lockedBalance := t.lockedBalance, transfers := t.transfers }) : Setup token tranches t := by
  rw [ht]
  exact ⟨⟨h.plain.staking, h.plain.tranches⟩, h.token_eq, h.amount_eq, h.count_eq, h.stored⟩

/-- A timelock with tranches, none of which was paid after `ledger`. -/
structure Tranched (token : Address) (tranches : List ReleaseTranche) (ledger : ℕ) (s : State) :
    Prop extends Setup token tranches s where
  started : s.state ≠ none
  due : ∀ i < tranches.length, isSet s.trancheReleased i = true → isDue s ledger i = true
  claimed : unclaimed s token ≤ totalOf tranches
  paid_eq : paid token s.transfers =
    sumWhere s tranches.length (isSet s.trancheReleased) + (totalOf tranches - unclaimed s token)
  paid_le : paid token s.transfers ≤ matured tranches ledger
  refunded_eq : s.state = some .active → refunded token s.transfers = 0
  settled : s.state ≠ some .active →
    paid token s.transfers + refunded token s.transfers = totalOf tranches

section Lists
variable {tranches : List ReleaseTranche} {s : State}

theorem sum_range_map {α : Type} (l : List α) (f : α → ℤ) :
    ∑ i ∈ Finset.range l.length, (l[i]?.map f).getD 0 = (l.map f).sum := by
  induction l with
  | nil => rfl
  | cons x l ih =>
    rw [List.length_cons, Finset.sum_range_succ', List.map_cons, List.sum_cons, ← ih]
    simp only [List.getElem?_cons_succ, List.getElem?_cons_zero, Option.map_some, Option.getD_some]
    exact add_comm _ _

theorem sumWhere_true (h : ∀ i < tranches.length, s.tranche i = tranches[i]?) :
    sumWhere s tranches.length (fun _ => true) = totalOf tranches := by
  rw [totalOf, ← sum_range_map]
  apply Finset.sum_congr rfl
  intro i hi
  rw [if_pos rfl, trancheAmount, h i (Finset.mem_range.mp hi)]

theorem sumWhere_isDue (h : ∀ i < tranches.length, s.tranche i = tranches[i]?) (ledger : ℕ) :
    sumWhere s tranches.length (isDue s ledger) = matured tranches ledger := by
  rw [matured, ← sum_range_map]
  apply Finset.sum_congr rfl
  intro i hi
  rw [trancheAmount, isDue, h i (Finset.mem_range.mp hi)]
  cases tranches[i]? <;> simp

theorem trancheAmount_nonneg (h : ∀ i < tranches.length, s.tranche i = tranches[i]?)
    (hpos : ∀ tranche ∈ tranches, 0 < tranche.amount) :
    ∀ i < tranches.length, 0 ≤ trancheAmount s i := by
  intro i hi
  have hi' : tranches[i]? = some tranches[i] := List.getElem?_eq_getElem hi
  rw [trancheAmount_of_stored ((h i hi).trans hi')]
  exact le_of_lt (hpos _ (List.getElem_mem hi))

theorem isDue_mono {i earlier later : ℕ} (hle : earlier ≤ later) (h : isDue s earlier i = true) :
    isDue s later i = true := by
  unfold isDue at h ⊢
  rw [Option.any_eq_true] at h ⊢
  obtain ⟨tranche, htranche, hdue⟩ := h
  refine ⟨tranche, htranche, ?_⟩
  rw [decide_eq_true_eq] at hdue ⊢
  omega

end Lists

section Steps
variable {self token : Address} {tranches : List ReleaseTranche} {ledger : ℕ} {s t : State}
  {i : Invocation}

/-- A call that flags no tranche keeps the sum of the flagged ones, all of which are due. -/
theorem Tranched.flags (h : Tranched token tranches ledger s)
    (ht : t = { s with
      beneficiary := t.beneficiary, state := t.state, lockedBalance := t.lockedBalance,
      transfers := t.transfers }) :
    sumWhere t tranches.length (isSet t.trancheReleased) =
        sumWhere s tranches.length (isSet s.trancheReleased) ∧
      ∀ i < tranches.length, isSet t.trancheReleased i = true → isDue t ledger i = true := by
  rw [ht]
  exact ⟨rfl, h.due⟩

theorem Tranched.unclaimed_eq (h : Tranched token tranches ledger s)
    (hamount : s.amount = some (unclaimed s token)) : unclaimed s token = totalOf tranches := by
  rw [h.amount_eq] at hamount
  exact (Option.some.inj hamount).symm

/-- What was flagged, or is due now, is due at `ledger`. -/
theorem Tranched.flagged_or_due_le (h : Tranched token tranches ledger s)
    (hpos : ∀ tranche ∈ tranches, 0 < tranche.amount) {sequence : ℕ} (hle : sequence ≤ ledger) :
    sumWhere s tranches.length (fun i => isSet s.trancheReleased i || isDue s sequence i) ≤
      matured tranches ledger := by
  rw [← sumWhere_isDue h.stored]
  refine sumWhere_mono (trancheAmount_nonneg h.stored hpos) fun i hi hset => ?_
  rcases (Bool.or_eq_true _ _).mp hset with hset | hdue
  · exact h.due i hi hset
  · exact isDue_mono hle hdue

theorem Tranched.swept (h : Tranched token tranches ledger s)
    (hpos : ∀ tranche ∈ tranches, 0 < tranche.amount) (hle : i.sequence ≤ ledger)
    (hamount : s.amount = some (unclaimed s token)) (hactive : s.state = some .active)
    {beneficiary : Address} {sweep : Sweep}
    (hsweep : (List.range tranches.length).foldlM (sweepStep i.toEnv s)
      { trancheReleased := s.trancheReleased } = .ok sweep)
    (ht : t = { s with
      trancheReleased := sweep.trancheReleased,
      state := if sweep.allReleased then some .released else s.state,
      transfers := s.transfers ++ [⟨.payout, token, self, beneficiary, sweep.totalReleased⟩] }) :
    Tranched token tranches ledger t := by
  obtain ⟨htotal, hflags, hall⟩ := sweep_ok hsweep
  have hunclaimed := h.unclaimed_eq hamount
  have hreleased : sumWhere s tranches.length (isSet sweep.trancheReleased) =
      sumWhere s tranches.length (isSet s.trancheReleased) + sweep.totalReleased := by
    rw [htotal, ← sumWhere_or]
    refine sumWhere_congr fun i hi => ?_
    rw [hflags i, decide_eq_true hi, Bool.true_and]
  have hpaid : paid token t.transfers = sumWhere s tranches.length (isSet sweep.trancheReleased) := by
    have hold := h.paid_eq
    rw [ht, paid_append, paid_singleton, if_pos ⟨rfl, rfl⟩]
    show paid token s.transfers + sweep.totalReleased = _
    omega
  have hrefund : refunded token t.transfers = 0 := by
    rw [ht, refunded_append, refunded_singleton, if_neg (by simp)]
    have hold := h.refunded_eq hactive
    omega
  have hdue : ∀ i < tranches.length, isSet sweep.trancheReleased i = true → isDue s ledger i = true := by
    intro i hi hset
    rw [hflags i, decide_eq_true hi, Bool.true_and] at hset
    rcases (Bool.or_eq_true _ _).mp hset with hset | hdue
    · exact h.due i hi hset
    · exact isDue_mono hle hdue
  have hmatured : paid token t.transfers ≤ matured tranches ledger := by
    rw [hpaid, ← sumWhere_isDue h.stored]
    exact sumWhere_mono (trancheAmount_nonneg h.stored hpos) hdue
  have hsettled : t.state ≠ some .active →
      paid token t.transfers + refunded token t.transfers = totalOf tranches := by
    intro hstate
    have hdone : sweep.allReleased = true := by
      by_contra hopen
      rw [ht] at hstate
      simp only [if_neg hopen] at hstate
      exact hstate hactive
    rw [hpaid, hrefund, add_zero, ← sumWhere_true h.stored]
    exact sumWhere_congr fun i hi => hall hdone i hi
  have hstarted : t.state ≠ none := by
    rw [ht]
    dsimp only
    split
    · exact Option.some_ne_none _
    · exact h.started
  have hunclaimed' : unclaimed t token = unclaimed s token := by
    rw [ht]
    rfl
  have hpaid' : paid token t.transfers = sumWhere t tranches.length (isSet t.trancheReleased) +
      (totalOf tranches - unclaimed t token) := by
    rw [hunclaimed', hunclaimed, sub_self, add_zero, hpaid, ht]
    rfl
  have hclaimed : unclaimed t token ≤ totalOf tranches := by
    rw [hunclaimed']
    exact h.claimed
  have hdue' : ∀ i < tranches.length, isSet t.trancheReleased i = true → isDue t ledger i = true := by
    rw [ht]
    exact hdue
  exact ⟨h.toSetup.frame (by rw [ht]), hstarted, hdue', hclaimed, hpaid', hmatured,
    fun _ => hrefund, hsettled⟩

theorem Tranched.claimed_partially (h : Tranched token tranches ledger s)
    (hpos : ∀ tranche ∈ tranches, 0 < tranche.amount) (hrange : InI128 (totalOf tranches))
    (hle : i.sequence ≤ ledger) {beneficiary : Address} {amount : ℤ} {claimable : ℤ}
    (hnonneg : 0 < amount) (hactive : s.state = some .active)
    (hclaimable : claimableAmountInternal i.toEnv token s = .ok claimable)
    (hsafe : amount ≤ claimable - (totalOf tranches - unclaimed s token))
    (ht : t = { s with
      lockedBalance := Function.update s.lockedBalance token
        (some (saturatingSub ((s.lockedBalance token).getD 0) amount)),
      transfers := s.transfers ++ [⟨.payout, token, self, beneficiary, amount⟩] }) :
    Tranched token tranches ledger t := by
  have hamounts := trancheAmount_nonneg h.stored hpos
  have htotal := sumWhere_true h.stored
  have hclaimable : claimable = sumWhere s tranches.length
      (fun j => !isSet s.trancheReleased j && isDue s i.sequence j) := by
    unfold claimableAmountInternal at hclaimable
    rw [h.count_eq] at hclaimable
    exact claimable_ok hamounts (by rwa [htotal]) hclaimable
  have hbound : claimable ≤ totalOf tranches := by
    rw [hclaimable, ← htotal]
    exact sumWhere_mono hamounts fun _ _ _ => rfl
  have hclaimed := h.claimed
  have hremaining : unclaimed t token = unclaimed s token - amount := by
    have hin : InI128 (unclaimed s token - amount) := by
      unfold InI128 at hrange ⊢
      omega
    rw [ht]
    simp only [unclaimed, Function.update_self, Option.getD_some]
    exact saturate_of_inI128 hin
  have hpaid : paid token t.transfers = paid token s.transfers + amount := by
    rw [ht, paid_append, paid_singleton, if_pos ⟨rfl, rfl⟩]
  have hrefund : refunded token t.transfers = refunded token s.transfers := by
    rw [ht, refunded_append, refunded_singleton, if_neg (by simp), add_zero]
  have hold := h.paid_eq
  have hmatured : paid token t.transfers ≤ matured tranches ledger := by
    have hdue := h.flagged_or_due_le hpos hle
    rw [sumWhere_or, ← hclaimable] at hdue
    omega
  have hstate : t.state = s.state := by rw [ht]
  obtain ⟨hsame, hdue⟩ := h.flags (t := t) (by rw [ht])
  have hpaid' : paid token t.transfers = sumWhere t tranches.length (isSet t.trancheReleased) +
      (totalOf tranches - unclaimed t token) := by
    rw [hsame]
    omega
  refine ⟨h.toSetup.frame (by rw [ht]), by rw [hstate]; exact h.started, hdue, by omega, hpaid',
    hmatured, fun _ => ?_, fun hother => absurd (hstate.trans hactive) hother⟩
  rw [hrefund]
  exact h.refunded_eq hactive

theorem Tranched.cancelled (h : Tranched token tranches ledger s) (hactive : s.state = some .active)
    (hamount : s.amount = some (unclaimed s token)) {admin : Address} {refund : ℤ}
    (hrefund : refundAmount (totalOf tranches) s = .ok refund)
    (ht : t = { s with
      state := some .cancelled,
      transfers := s.transfers ++ [⟨.refund, token, self, admin, refund⟩] }) :
    Tranched token tranches ledger t := by
  have hunclaimed := h.unclaimed_eq hamount
  have hrefund : refund =
      totalOf tranches - sumWhere s tranches.length (isSet s.trancheReleased) := by
    unfold refundAmount at hrefund
    rw [h.count_eq] at hrefund
    simp only [bind_eq_ok, okOr_eq_ok, checkedSub_eq_some] at hrefund
    obtain ⟨alreadyReleased, hloop, _, rfl⟩ := hrefund
    rw [alreadyReleased_ok hloop]
  have hpaid : paid token t.transfers = paid token s.transfers := by
    rw [ht, paid_append, paid_singleton, if_neg (by simp), add_zero]
  have hback : refunded token t.transfers = refund := by
    rw [ht, refunded_append, refunded_singleton, if_pos ⟨rfl, rfl⟩, h.refunded_eq hactive, zero_add]
  have hold := h.paid_eq
  have hunclaimed' : unclaimed t token = unclaimed s token := by
    rw [ht]
    rfl
  obtain ⟨hsame, hdue⟩ := h.flags (t := t) (by rw [ht])
  refine ⟨h.toSetup.frame (by rw [ht]), by rw [ht]; exact Option.some_ne_none _, hdue, ?_, ?_, ?_,
    fun hstate => ?_, fun _ => ?_⟩
  · rw [hunclaimed']
    exact h.claimed
  · rw [hpaid, hsame, hunclaimed', hold]
  · rw [hpaid]
    exact h.paid_le
  · rw [ht] at hstate
    cases hstate
  · omega

theorem Tranched.unconcerned (h : Tranched token tranches ledger s)
    (ht : t = { s with
      beneficiary := t.beneficiary, lockedBalance := t.lockedBalance, transfers := t.transfers })
    (hunclaimed : unclaimed t token = unclaimed s token)
    (hpaid : paid token t.transfers = paid token s.transfers)
    (hrefunded : refunded token t.transfers = refunded token s.transfers) :
    Tranched token tranches ledger t := by
  have hstate : t.state = s.state := by rw [ht]
  obtain ⟨hsame, hdue⟩ := h.flags (t := t) (by rw [ht])
  refine ⟨h.toSetup.frame (by rw [ht]), ?_, hdue, ?_, ?_, ?_, ?_, ?_⟩
  · rw [hstate]
    exact h.started
  · rw [hunclaimed]
    exact h.claimed
  · rw [hpaid, hsame, hunclaimed]
    exact h.paid_eq
  · rw [hpaid]
    exact h.paid_le
  · rw [hstate, hrefunded]
    exact h.refunded_eq
  · rw [hstate, hpaid, hrefunded]
    exact h.settled

theorem exec_tranched (hpos : ∀ tranche ∈ tranches, 0 < tranche.amount)
    (hrange : InI128 (totalOf tranches)) (hs : Tranched token tranches ledger s)
    (hi : SafePayout s i) (hscope : i.call.isDeposit = false) (hle : i.sequence ≤ ledger)
    (h : exec self i s = .ok t) : Tranched token tranches ledger t := by
  unfold SafePayout at hi
  cases exec_move hs.plain h with
  | started hnone => exact absurd hnone hs.started
  | deposited _ _ _ _ hcall =>
    rw [hcall] at hscope
    cases hscope
  | swept token' beneficiary count sweep hcall hactive hcount hsweep _ h =>
    rw [hcall] at hi
    obtain ⟨htoken, hamount⟩ := hi
    rw [hs.token_eq] at htoken
    cases htoken
    rw [hs.count_eq] at hcount
    cases hcount
    exact hs.swept hpos hle hamount hactive hsweep h
  | released _ _ _ _ _ _ hcount =>
    rw [hs.count_eq] at hcount
    cases hcount
  | claimed token' beneficiary amount claimable hcall hactive hamount hclaimable _ _ h =>
    rw [hcall] at hi
    by_cases htoken : token' = token
    · subst htoken
      exact hs.claimed_partially hpos hrange hle hamount hactive hclaimable
        (hi hs.token_eq _ claimable hs.amount_eq hclaimable) h
    · refine hs.unconcerned (by rw [h]) ?_ ?_ ?_
      · simp only [h, unclaimed, Function.update_of_ne (Ne.symm htoken)]
      · rw [h, paid_append, paid_singleton, if_neg (by simp [htoken]), add_zero]
      · rw [h, refunded_append, refunded_singleton, if_neg (by simp), add_zero]
  | cancelled admin token' amount refund hcall hactive htoken hamount hrefund _ h =>
    rw [hcall] at hi
    rw [hs.token_eq] at htoken
    cases htoken
    have hunclaimed := hi token hs.token_eq
    rw [hs.amount_eq] at hamount
    cases hamount
    exact hs.cancelled hactive hunclaimed hrefund h
  | reassigned _ _ h => exact hs.unconcerned (by rw [h]) (by rw [h]; rfl) (by rw [h]) (by rw [h])
  | asked _ _ h =>
    rw [h]
    exact hs

end Steps

theorem checkTranches_ok {tranches : List ReleaseTranche} {start total : ℤ} {first last : ℕ}
    (hstart : InI128 start) (h : tranches.foldlM checkTranche (start, first) = .ok (total, last)) :
    (∀ tranche ∈ tranches, 0 < tranche.amount) ∧ total = start + totalOf tranches ∧ InI128 total := by
  induction tranches generalizing start first with
  | nil =>
    simp only [List.foldlM_nil, pure_eq_ok, Prod.mk.injEq] at h
    obtain ⟨rfl, _⟩ := h
    exact ⟨by simp, by simp [totalOf], hstart⟩
  | cons tranche tranches ih =>
    simp only [List.foldlM_cons, checkTranche, bind_eq_ok, rejectIf_eq_ok, okOr_eq_ok,
      checkedAdd_eq_some, pure_eq_ok, not_le] at h
    obtain ⟨_, ⟨_, hpos, _, _, _, ⟨hin, rfl⟩, rfl⟩, h⟩ := h
    obtain ⟨hrest, htotal, htotalIn⟩ := ih hin h
    refine ⟨?_, ?_, htotalIn⟩
    · intro x hx
      rcases List.mem_cons.mp hx with rfl | hx
      · exact hpos
      · exact hrest x hx
    · rw [htotal, totalOf, totalOf, List.map_cons, List.sum_cons]
      omega

theorem matured_nonneg {tranches : List ReleaseTranche}
    (hpos : ∀ tranche ∈ tranches, 0 < tranche.amount) (ledger : ℕ) : 0 ≤ matured tranches ledger := by
  apply List.sum_nonneg
  intro x hx
  obtain ⟨tranche, htranche, rfl⟩ := List.mem_map.mp hx
  split
  · exact le_of_lt (hpos tranche htranche)
  · exact le_refl 0

theorem created_tranched {self admin token beneficiary : Address} {tranches : List ReleaseTranche}
    {env : Env} {s : State}
    (h : initializeWithTranches self env admin token beneficiary tranches State.empty = .ok s)
    (ledger : ℕ) :
    (∀ tranche ∈ tranches, 0 < tranche.amount) ∧ InI128 (totalOf tranches) ∧
      Tranched token tranches ledger s := by
  simp only [initializeWithTranches, callTransfer, recordTransfer_eq_ok, bind_eq_ok,
    pure_eq_ok] at h
  obtain ⟨_, _, _, _, _, _, ⟨total, last⟩, hloop, first, _, _, _, _, ⟨_, rfl⟩, hs⟩ := h
  obtain ⟨hpos, htotal, hrange⟩ := checkTranches_ok (by decide) hloop
  rw [zero_add] at htotal
  subst htotal
  have hsetup : Setup token tranches s := by
    rw [← hs]
    exact ⟨⟨rfl, rfl⟩, rfl, rfl, rfl, fun i hi => if_pos hi⟩
  have hflags : ∀ i < tranches.length, isSet s.trancheReleased i = false := by
    intro i hi
    rw [← hs]
    simp only [isSet, if_pos hi, Option.getD_some]
  have hunclaimed : unclaimed s token = totalOf tranches := by
    rw [← hs]
    simp only [unclaimed, storeLock, Function.update_self, Option.getD_some]
  have hpaid : paid token s.transfers = 0 := by
    rw [← hs]
    rfl
  have hrefunded : refunded token s.transfers = 0 := by
    rw [← hs]
    rfl
  have hstate : s.state = some .active := by
    rw [← hs]
    rfl
  refine ⟨hpos, hrange, hsetup, by simp [hstate], ?_, le_of_eq hunclaimed, ?_, ?_,
    fun _ => hrefunded, fun hother => absurd hstate hother⟩
  · intro i hi hset
    rw [hflags i hi] at hset
    cases hset
  · rw [hpaid, hunclaimed, sub_self, add_zero, sumWhere_congr hflags]
    simp [sumWhere]
  · rw [hpaid]
    exact matured_nonneg hpos ledger

/-- A timelock with tranches, in any run of safe payouts: what went to beneficiaries never
    exceeds what has matured, and once the timelock is released or cancelled everything was
    paid or refunded. -/
theorem tranche_payouts (self admin token beneficiary : Address) (tranches : List ReleaseTranche)
    (env : Env) (s : State)
    (hinit : exec self ⟨env, .initializeWithTranches admin token beneficiary tranches⟩ State.empty =
      .ok s)
    (is : List Invocation) (hscope : ∀ i ∈ is, i.call.isDeposit = false)
    (hsafe : Along (exec self) SafePayout s is) :
    (∀ ledger, (∀ i ∈ is, i.sequence ≤ ledger) →
      paid token (run self s is).transfers ≤ matured tranches ledger) ∧
    ((run self s is).state = some .released ∨ (run self s is).state = some .cancelled →
      paid token (run self s is).transfers + refunded token (run self s is).transfers =
        totalOf tranches) := by
  have hrun : ∀ ledger, (∀ i ∈ is, i.sequence ≤ ledger) →
      Tranched token tranches ledger (run self s is) := by
    intro ledger hledger
    obtain ⟨hpos, hrange, hs⟩ := created_tranched hinit ledger
    refine run_invariant_along (fun s i t hs hi hok => ?_) hs
      ((hsafe.and_forall hscope).and_forall hledger)
    exact exec_tranched hpos hrange hs hi.1.1 hi.1.2 hi.2 hok
  refine ⟨fun ledger hledger => (hrun ledger hledger).paid_le, fun hdone => ?_⟩
  refine (hrun _ (sequence_le_sum is)).settled ?_
  rcases hdone with hstate | hstate
  · simp [hstate]
  · simp [hstate]

def demoTimelock : Address := ⟨20⟩

def demoGrantor : Address := ⟨21⟩

def demoToken : Address := ⟨22⟩

def demoBeneficiary : Address := ⟨23⟩

/-- The grantor holds 300 of every token. -/
def demoLedger : Ledger := fun _ holder => if holder = demoGrantor then 300 else 0

def demoEnv (sequence : ℕ) : Env where
  sequence := sequence
  auths := [demoGrantor]
  tokens := honestReplies demoLedger
  staking _ _ := true

def demoTranches : List ReleaseTranche := [⟨100, 100⟩, ⟨200, 100⟩]

def demoTranched : State :=
  run demoTimelock State.empty
    [⟨demoEnv 1, .initializeWithTranches demoGrantor demoToken demoBeneficiary demoTranches⟩]

theorem tranche_payouts_demo :
    paid demoToken (run demoTimelock demoTranched
      [⟨demoEnv 150, .release demoToken⟩, ⟨demoEnv 160, .cancel⟩]).transfers +
    refunded demoToken (run demoTimelock demoTranched
      [⟨demoEnv 150, .release demoToken⟩, ⟨demoEnv 160, .cancel⟩]).transfers = 200 := by
  refine (tranche_payouts demoTimelock demoGrantor demoToken demoBeneficiary demoTranches (demoEnv 1)
    demoTranched rfl [⟨demoEnv 150, .release demoToken⟩, ⟨demoEnv 160, .cancel⟩] (by decide)
    ⟨⟨rfl, rfl⟩, ⟨fun token htoken => ?_, trivial⟩⟩).2 (.inr rfl)
  cases htoken
  rfl

theorem demoAmount_fits : InI128 100 := by decide

def demoAmount : I128 := ⟨100, demoAmount_fits⟩

def demoClaim : Invocation := ⟨demoEnv 150, .releasePartial demoToken demoAmount⟩

/-- The first tranche is claimed twice at a ledger where only it has matured. -/
theorem tranche_claimed_twice :
    matured demoTranches 150 = 100 ∧
      paid demoToken (run demoTimelock demoTranched [demoClaim, demoClaim]).transfers = 200 := by
  decide +kernel

end SorobanKit.Timelock
