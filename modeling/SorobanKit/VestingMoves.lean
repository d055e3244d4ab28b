import Mathlib.Tactic.Positivity
import SorobanKit.VestingContract

set_option autoImplicit false

/-!
# What calls do to a schedule

The line along which a schedule vests, and one case for each kind of call, for the schedule of one
beneficiary.
-/
namespace SorobanKit.Vesting
open CommonMath HostBalances HostInteger HostInvocation HostTransfers

/-- What has vested at a ledger, without bounds on the arithmetic. -/
def linear (amount : ℤ) (cliffLedger endLedger ledger : ℕ) : ℤ :=
  if ledger < cliffLedger then 0
  else if endLedger ≤ ledger then amount
  else amount * (ledger - cliffLedger : ℕ) / (endLedger - cliffLedger : ℕ)

section Line
variable {amount vested : ℤ} {cliffLedger endLedger ledger later : ℕ}

theorem vestedAmount_ok (h : vestedAmount amount cliffLedger endLedger ledger = .ok vested)
    (hamount : 0 ≤ amount) : vested = linear amount cliffLedger endLedger ledger := by
  unfold vestedAmount at h
  unfold linear
  split
  · next hearly =>
    rw [if_pos hearly, pure_eq_ok] at h
    exact h.symm
  · next hcliff =>
    rw [if_neg hcliff] at h
    split
    · next hend =>
      rw [if_pos hend, pure_eq_ok] at h
      exact h.symm
    · next hend =>
      rw [if_neg hend, okOr_eq_ok] at h
      have hvested := mulDiv_toOption h
      have helapsed : (0 : ℤ) ≤ (ledger - cliffLedger : ℕ) := Int.natCast_nonneg _
      rw [Int.tdiv_eq_ediv_of_nonneg (Int.mul_nonneg hamount helapsed)] at hvested
      exact hvested

theorem linear_nonneg (hamount : 0 ≤ amount) : 0 ≤ linear amount cliffLedger endLedger ledger := by
  unfold linear
  split_ifs
  · exact le_refl _
  · exact hamount
  · positivity

theorem linear_of_end (hcliff : cliffLedger < endLedger) (h : endLedger ≤ ledger) :
    linear amount cliffLedger endLedger ledger = amount := by
  rw [linear, if_neg (by omega), if_pos h]

theorem linear_lt (hcliff : cliffLedger < endLedger) (hamount : 0 < amount)
    (h : ledger < endLedger) : linear amount cliffLedger endLedger ledger < amount := by
  unfold linear
  split_ifs with hearly hend
  · exact hamount
  · omega
  · have htotal : (0 : ℤ) < (endLedger - cliffLedger : ℕ) := by omega
    apply Int.ediv_lt_of_lt_mul htotal
    exact Int.mul_lt_mul_of_pos_left (by omega) hamount

theorem linear_le (hamount : 0 ≤ amount) :
    linear amount cliffLedger endLedger ledger ≤ amount := by
  unfold linear
  split_ifs with hearly hend
  · exact hamount
  · exact le_refl _
  · have htotal : (0 : ℤ) < (endLedger - cliffLedger : ℕ) := by omega
    apply Int.ediv_le_of_le_mul htotal
    exact Int.mul_le_mul_of_nonneg_left (by omega) hamount

theorem linear_mono (hamount : 0 ≤ amount) (h : ledger ≤ later) :
    linear amount cliffLedger endLedger ledger ≤ linear amount cliffLedger endLedger later := by
  by_cases hearly : ledger < cliffLedger
  · rw [linear, if_pos hearly]
    exact linear_nonneg hamount
  · by_cases hend : endLedger ≤ later
    · have hlater : linear amount cliffLedger endLedger later = amount := by
        rw [linear, if_neg (by omega), if_pos hend]
      rw [hlater]
      exact linear_le hamount
    · rw [linear, if_neg hearly, if_neg (by omega), linear, if_neg (by omega), if_neg hend]
      apply Int.ediv_le_ediv (by omega)
      exact Int.mul_le_mul_of_nonneg_left (by omega) hamount

/-- Where the end is a ledger that has passed, all or nothing has vested. -/
theorem vestedAmount_cut {cutoff : ℕ} (h : vestedAmount amount cliffLedger cutoff ledger = .ok vested)
    (hcut : cutoff ≤ ledger) : vested = if ledger < cliffLedger then 0 else amount := by
  unfold vestedAmount at h
  split
  · next hearly =>
    rw [if_pos hearly, pure_eq_ok] at h
    exact h.symm
  · next hcliff =>
    rw [if_neg hcliff, if_pos hcut, pure_eq_ok] at h
    exact h.symm

end Line

section Calls
variable {house b : Address} {env : Env} {i : Invocation} {s t : State} {x : Transfer Purpose}

/-- All that was ever paid to the beneficiary of a schedule under it. -/
def paid (b : Address) (s : State) : ℤ := sumOf (fun x => x.purpose = .claim b) s.transfers

/-- All that was ever paid to the admin out of a schedule. -/
def returned (b : Address) (s : State) : ℤ := sumOf (fun x => x.purpose = .unvested b) s.transfers

theorem paid_append (x : Transfer Purpose) :
    paid b { s with transfers := s.transfers ++ [x] } =
      paid b s + if x.purpose = .claim b then x.amount else 0 := by
  simp [paid]

theorem returned_append (x : Transfer Purpose) :
    returned b { s with transfers := s.transfers ++ [x] } =
      returned b s + if x.purpose = .unvested b then x.amount else 0 := by
  simp [returned]

@[simp] theorem paid_putSchedule (c : Address) (schedule : BeneficiarySchedule) :
    paid b (putSchedule c schedule s) = paid b s := rfl

@[simp] theorem returned_putSchedule (c : Address) (schedule : BeneficiarySchedule) :
    returned b (putSchedule c schedule s) = returned b s := rfl

/-- A call about something else than the schedule of `b`. -/
structure Away (b : Address) (s t : State) : Prop where
  lookup : t.schedules.lookup b = s.schedules.lookup b
  paid : paid b t = paid b s
  returned : returned b t = returned b s

/-- What a returning call does to the schedule of `b`. -/
inductive Move (b : Address) (i : Invocation) (s t : State) : Prop where
  | away (unclaimed : i.call ≠ .claim b) (kept : i.call ≠ .revoke b)
      (pending : i.call ≠ .finalizeRevocation b) (away : Away b s t)
  | created (schedule : BeneficiarySchedule) (fresh : s.schedules.lookup b = none)
      (stored : t.schedules.lookup b = some schedule)
  | claimed (schedule : BeneficiarySchedule) (vested : ℤ) (call : i.call = .claim b)
      (found : s.schedules.lookup b = some schedule)
      (due : vestedAmount schedule.amount schedule.cliffLedger
        (effectiveEnd schedule (revocationDelay s) i.sequence) i.sequence = .ok vested)
      (more : schedule.claimed < vested)
      (stored : t.schedules.lookup b = some { schedule with claimed := vested })
      (paid : paid b t = paid b s + (vested - schedule.claimed))
      (returned : returned b t = returned b s)
  | revoked (schedule after : BeneficiarySchedule) (call : i.call = .revoke b)
      (found : s.schedules.lookup b = some schedule)
      (fresh : schedule.revoked = false ∧ schedule.revocationPending = false)
      (after_eq : after = if revocationDelay s = 0
        then { schedule with revoked := true, revocationLedger := i.sequence }
        else { schedule with revocationPending := true, revocationLedger := i.sequence })
      (stored : t.schedules.lookup b = some after)
      (paid : paid b t = paid b s) (returned : returned b t = returned b s)
  | finalized (schedule : BeneficiarySchedule) (cutoff : ℕ) (vested : ℤ)
      (call : i.call = .finalizeRevocation b) (found : s.schedules.lookup b = some schedule)
      (waiting : schedule.revoked = false ∧ schedule.revocationPending = true)
      (cutoff_eq : cutoff = saturatingAddU32 schedule.revocationLedger (revocationDelay s))
      (due : cutoff ≤ i.sequence)
      (vested_eq : vestedAmount schedule.amount schedule.cliffLedger cutoff i.sequence = .ok vested)
      (stored : t.schedules.lookup b = some { schedule with
        revoked := true, revocationPending := false, revocationLedger := cutoff })
      (paid : paid b t = paid b s)
      (returned : returned b t = returned b s + max 0 (schedule.amount - vested))

theorem lookup_putSchedule_of_ne {c : Address} (schedule : BeneficiarySchedule) (h : b ≠ c) :
    (putSchedule c schedule s).schedules.lookup b = s.schedules.lookup b :=
  Finmap.lookup_insert_of_ne _ h

@[simp] theorem lookup_putSchedule (schedule : BeneficiarySchedule) :
    (putSchedule b schedule s).schedules.lookup b = some schedule :=
  Finmap.lookup_insert _

theorem createSchedule_ok {c : Address} {cliffLedger endLedger : ℕ} {amount : ℤ} {rev : Bool}
    (h : createSchedule house env c cliffLedger endLedger amount rev s = .ok t) :
    s.admin ≠ none ∧ 0 < amount ∧ cliffLedger < endLedger ∧ s.schedules.lookup c = none ∧
      ∃ y, y.purpose = .deposit c ∧ t = { putSchedule c
        ⟨amount, cliffLedger, endLedger, 0, false, rev, false, 0⟩ s with
          transfers := s.transfers ++ [y] } := by
  simp only [createSchedule, validateSchedule, bind_eq_ok, okOr_eq_ok, rejectIf_eq_ok] at h
  obtain ⟨admin, hadmin, token, _, _, _, _, hamount, _, hschedule, _, hfresh, hcall⟩ := h
  have ht := recordTransfer_ok hcall
  refine ⟨by simp [hadmin], by omega, by omega, ?_, _, rfl, ht⟩
  exact Finmap.lookup_eq_none.mpr hfresh

theorem claim_ok {c : Address} {amount : ℤ} (h : claim house env c s = .ok (amount, t)) :
    ∃ schedule vested token, s.schedules.lookup c = some schedule ∧
      vestedAmount schedule.amount schedule.cliffLedger
        (effectiveEnd schedule (revocationDelay s) env.sequence) env.sequence = .ok vested ∧
      schedule.claimed < vested ∧
      t = { putSchedule c { schedule with claimed := vested } s with transfers := s.transfers ++
        [⟨.claim c, token, house, c, vested - schedule.claimed⟩] } := by
  simp only [claim, bind_eq_ok, okOr_eq_ok, unwrap_eq_ok, checkedSub_eq_some, checkedAdd_eq_some,
    rejectIf_eq_ok, pure_eq_ok] at h
  obtain ⟨token, _, schedule, hfound, vested, hvested, _, ⟨_, rfl⟩, _, hmore, _, ⟨_, rfl⟩, u, hcall,
    hpair⟩ := h
  obtain ⟨_, rfl⟩ := Prod.mk.inj hpair
  refine ⟨schedule, vested, token, hfound, hvested, by omega, ?_⟩
  have hclaimed : schedule.claimed + (vested - schedule.claimed) = vested := by omega
  rw [recordTransfer_ok hcall, hclaimed]
  rfl

theorem claim_move {c : Address} {amount : ℤ} (hcall : i.call = .claim c)
    (h : claim house i.toEnv c s = .ok (amount, t)) : Move b i s t := by
  obtain ⟨schedule, vested, token, hfound, hdue, hmore, rfl⟩ := claim_ok h
  by_cases hb : b = c
  · subst hb
    refine .claimed schedule vested hcall hfound hdue hmore (lookup_putSchedule _) ?_ ?_
    · exact (paid_append _).trans (congrArg (paid b s + ·) (if_pos rfl))
    · refine (returned_append _).trans ?_
      rw [if_neg (by simp)]
      exact Int.add_zero _
  · refine .away (by simp [hcall, Ne.symm hb]) (by simp [hcall]) (by simp [hcall]) ⟨?_, ?_, ?_⟩
    · exact lookup_putSchedule_of_ne _ hb
    · refine (paid_append _).trans ?_
      rw [if_neg (by simp [Ne.symm hb])]
      exact Int.add_zero _
    · refine (returned_append _).trans ?_
      rw [if_neg (by simp)]
      exact Int.add_zero _

theorem revoke_move {c : Address} (hcall : i.call = .revoke c)
    (h : revoke i.toEnv c s = .ok t) : Move b i s t := by
  simp only [revoke, bind_eq_ok, okOr_eq_ok, rejectIf_eq_ok, ite_eq_ok, pure_eq_ok] at h
  obtain ⟨_, _, _, _, schedule, hfound, _, hfresh, hresult⟩ := h
  rw [not_or, Bool.not_eq_true, Bool.not_eq_true] at hfresh
  have ht : t = putSchedule c (if revocationDelay s = 0
      then { schedule with revoked := true, revocationLedger := i.sequence }
      else { schedule with revocationPending := true, revocationLedger := i.sequence }) s := by
    rcases hresult with ⟨hzero, ht⟩ | ⟨hzero, ht⟩
    · rw [if_pos hzero, ht]
    · rw [if_neg hzero, ht]
  subst ht
  by_cases hb : b = c
  · subst hb
    exact .revoked schedule _ hcall hfound hfresh rfl (lookup_putSchedule _) rfl rfl
  · exact .away (by simp [hcall]) (by simp [hcall, Ne.symm hb]) (by simp [hcall])
      ⟨lookup_putSchedule_of_ne _ hb, rfl, rfl⟩

theorem finalizeRevocation_ok {c : Address} (h : finalizeRevocation house env c s = .ok t) :
    ∃ schedule cutoff vested log, s.schedules.lookup c = some schedule ∧
      (schedule.revoked = false ∧ schedule.revocationPending = true) ∧
      cutoff = saturatingAddU32 schedule.revocationLedger (revocationDelay s) ∧
      cutoff ≤ env.sequence ∧
      vestedAmount schedule.amount schedule.cliffLedger cutoff env.sequence = .ok vested ∧
      (∀ x ∈ log, x.purpose = .unvested c) ∧
      (log.map Transfer.amount).sum = max 0 (schedule.amount - vested) ∧
      t = { putSchedule c { schedule with
          revoked := true, revocationPending := false, revocationLedger := cutoff } s with
        transfers := s.transfers ++ log } := by
  simp only [finalizeRevocation, bind_eq_ok, okOr_eq_ok, rejectIf_eq_ok, unwrap_eq_ok,
    checkedSub_eq_some, ite_eq_ok, pure_eq_ok] at h
  obtain ⟨admin, _, token, _, schedule, hfound, _, hwaiting, _, hdue, vested, hvested, _, ⟨_, rfl⟩,
    hpay⟩ := h
  rw [not_or, Bool.not_eq_true, Decidable.not_not] at hwaiting
  rcases hpay with ⟨hpos, hcall⟩ | ⟨hpos, hnone⟩
  · refine ⟨schedule, _, vested, [⟨.unvested c, token, house, admin, schedule.amount - vested⟩],
      hfound, hwaiting, rfl, by omega, hvested, ?_, ?_, recordTransfer_ok hcall⟩
    · intro x hx
      rw [List.mem_singleton.mp hx]
    · simp only [List.map_cons, List.map_nil, List.sum_cons, List.sum_nil]
      omega
  · refine ⟨schedule, _, vested, [], hfound, hwaiting, rfl, by omega, hvested, ?_, ?_, ?_⟩
    · intro x hx
      cases hx
    · simp only [List.map_nil, List.sum_nil]
      omega
    · rw [← hnone, List.append_nil]
      rfl

theorem finalizeRevocation_move {c : Address} (hcall : i.call = .finalizeRevocation c)
    (h : finalizeRevocation house i.toEnv c s = .ok t) : Move b i s t := by
  obtain ⟨schedule, cutoff, vested, log, hfound, hwaiting, hcutoff, hdue, hvested, hlog, hsum, rfl⟩ :=
    finalizeRevocation_ok h
  have hpaid : sumOf (fun x => x.purpose = .claim b) log = 0 :=
    sumOf_eq_zero fun x hx => by simp [hlog x hx]
  by_cases hb : b = c
  · subst hb
    have hreturned : sumOf (fun x => x.purpose = .unvested b) log =
        max 0 (schedule.amount - vested) := by
      rw [← hsum, sumOf, List.filter_eq_self.mpr fun x hx => by simp [hlog x hx]]
    refine .finalized schedule cutoff vested hcall hfound hwaiting hcutoff hdue hvested
      (lookup_putSchedule _) ?_ ?_
    · exact (sumOf_append _ _ _).trans (by rw [hpaid]; exact Int.add_zero _)
    · exact (sumOf_append _ _ _).trans (by rw [hreturned]; rfl)
  · have hreturned : sumOf (fun x => x.purpose = .unvested b) log = 0 :=
      sumOf_eq_zero fun x hx => by simp [hlog x hx, Ne.symm hb]
    refine .away (by simp [hcall]) (by simp [hcall]) (by simp [hcall, Ne.symm hb]) ⟨?_, ?_, ?_⟩
    · exact lookup_putSchedule_of_ne _ hb
    · exact (sumOf_append _ _ _).trans (by rw [hpaid]; exact Int.add_zero _)
    · exact (sumOf_append _ _ _).trans (by rw [hreturned]; exact Int.add_zero _)

theorem createSchedule_move {c : Address} {cliffLedger endLedger : ℕ} {amount : ℤ} {rev : Bool}
    (hcall : i.call = .createSchedule c cliffLedger endLedger amount rev)
    (h : createSchedule house i.toEnv c cliffLedger endLedger amount rev s = .ok t) :
    Move b i s t := by
  obtain ⟨_, _, _, hfresh, y, hy, rfl⟩ := createSchedule_ok h
  by_cases hb : b = c
  · subst hb
    exact .created _ hfresh (lookup_putSchedule _)
  · refine .away (by simp [hcall]) (by simp [hcall]) (by simp [hcall]) ⟨?_, ?_, ?_⟩
    · exact lookup_putSchedule_of_ne _ hb
    · refine (paid_append _).trans ?_
      rw [if_neg (by simp [hy])]
      exact Int.add_zero _
    · refine (returned_append _).trans ?_
      rw [if_neg (by simp [hy])]
      exact Int.add_zero _

theorem exec_move (b : Address) (h : exec house i s = .ok t) : Move b i s t := by
  cases hcall : i.call with
  | initializeVesting admin token =>
    simp only [exec, hcall, initializeVesting, bind_eq_ok, pure_eq_ok] at h
    obtain ⟨_, _, _, _, rfl⟩ := h
    exact .away (by simp [hcall]) (by simp [hcall]) (by simp [hcall]) ⟨rfl, rfl, rfl⟩
  | setRevocationDelay delay =>
    simp only [exec, hcall, setRevocationDelay, bind_eq_ok, pure_eq_ok] at h
    obtain ⟨_, _, _, _, rfl⟩ := h
    exact .away (by simp [hcall]) (by simp [hcall]) (by simp [hcall]) ⟨rfl, rfl, rfl⟩
  | createSchedule c cliffLedger endLedger amount rev =>
    simp only [exec, hcall] at h
    exact createSchedule_move hcall h
  | claim c =>
    simp only [exec, hcall, bind_eq_ok, pure_eq_ok] at h
    obtain ⟨⟨_, u⟩, hclaim, rfl⟩ := h
    exact claim_move hcall hclaim
  | revoke c =>
    simp only [exec, hcall] at h
    exact revoke_move hcall h
  | finalizeRevocation c =>
    simp only [exec, hcall] at h
    exact finalizeRevocation_move hcall h

/-- Only the admin changes the delay, and there is one admin. -/
theorem exec_delay (h : exec house i s = .ok t) (hadmin : s.admin ≠ none)
    (hcall : ∀ delay, i.call ≠ .setRevocationDelay delay) :
    t.admin = s.admin ∧ revocationDelay t = revocationDelay s := by
  cases hkind : i.call with
  | initializeVesting admin token =>
    simp only [exec, hkind, initializeVesting, bind_eq_ok, rejectIf_eq_ok] at h
    obtain ⟨_, hfresh, _⟩ := h
    exact absurd (by simpa using hfresh) hadmin
  | setRevocationDelay delay => exact absurd hkind (hcall delay)
  | createSchedule c cliffLedger endLedger amount rev =>
    simp only [exec, hkind] at h
    obtain ⟨_, _, _, _, y, _, rfl⟩ := createSchedule_ok h
    exact ⟨rfl, rfl⟩
  | claim c =>
    simp only [exec, hkind, bind_eq_ok, pure_eq_ok] at h
    obtain ⟨⟨_, u⟩, hclaim, rfl⟩ := h
    obtain ⟨_, _, _, _, _, _, rfl⟩ := claim_ok hclaim
    exact ⟨rfl, rfl⟩
  | revoke c =>
    simp only [exec, hkind, revoke, bind_eq_ok, ite_eq_ok, pure_eq_ok] at h
    obtain ⟨_, _, _, _, _, _, _, _, ⟨_, rfl⟩ | ⟨_, rfl⟩⟩ := h
    · exact ⟨rfl, rfl⟩
    · exact ⟨rfl, rfl⟩
  | finalizeRevocation c =>
    simp only [exec, hkind] at h
    obtain ⟨_, _, _, _, _, _, _, _, _, _, _, rfl⟩ := finalizeRevocation_ok h
    exact ⟨rfl, rfl⟩

end Calls

end SorobanKit.Vesting
