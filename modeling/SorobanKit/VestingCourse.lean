import SorobanKit.VestingMoves

set_option autoImplicit false

/-!
# The course of a schedule

From its creation on a schedule is granted, until a revocation cuts it off. What is known of
payments in each phase is an invariant of the history.
-/
namespace SorobanKit.Vesting
open HostInteger HostInvocation HostTransfers
open HostRuns (Entry)

/-- What a schedule was created with, and the delay of revocations. -/
structure Terms where
  beneficiary : Address
  amount : ℤ
  cliffLedger : ℕ
  endLedger : ℕ
  delay : ℕ
  positive : 0 < amount
  cliff_lt : cliffLedger < endLedger

def Terms.vested (T : Terms) (ledger : ℕ) : ℤ := linear T.amount T.cliffLedger T.endLedger ledger

/-- The ledger at which the revocation of a schedule takes effect. -/
def cutoffOf (schedule : BeneficiarySchedule) (delay : ℕ) : ℕ :=
  if schedule.revoked then schedule.revocationLedger
  else saturatingAddU32 schedule.revocationLedger delay

/-- The condition on a call: once the schedule of `b` is cut off before its end, nothing is claimed
    under it, and it is finalized before the cliff. -/
def Careful (b : Address) (s : State) (i : Invocation) : Prop :=
  ∀ schedule ∈ s.schedules.lookup b, schedule.revoked ∨ schedule.revocationPending →
    cutoffOf schedule (revocationDelay s) ≤ i.sequence →
    schedule.endLedger ≤ cutoffOf schedule (revocationDelay s) ∨
      (i.call ≠ .claim b ∧
        (i.call = .finalizeRevocation b → i.sequence < schedule.cliffLedger))

instance (b : Address) (s : State) (i : Invocation) : Decidable (Careful b s i) :=
  inferInstanceAs (Decidable (∀ schedule ∈ s.schedules.lookup b,
    schedule.revoked ∨ schedule.revocationPending →
    cutoffOf schedule (revocationDelay s) ≤ i.sequence →
    schedule.endLedger ≤ cutoffOf schedule (revocationDelay s) ∨
      (i.call ≠ .claim b ∧
        (i.call = .finalizeRevocation b → i.sequence < schedule.cliffLedger))))

section Course
variable {house : Address} {T : Terms} {i : Invocation} {s t : State} {now later R : ℕ}
  {schedule : BeneficiarySchedule} {past : List (Entry State Invocation)}

/-- The stored schedule is the one of the terms, with the payments made. -/
structure Tracks (T : Terms) (s : State) (schedule : BeneficiarySchedule) : Prop where
  admin : s.admin ≠ none
  delay : revocationDelay s = T.delay
  lookup : s.schedules.lookup T.beneficiary = some schedule
  amount : schedule.amount = T.amount
  cliff : schedule.cliffLedger = T.cliffLedger
  stop : schedule.endLedger = T.endLedger
  paid : paid T.beneficiary s = schedule.claimed
  nonneg : 0 ≤ schedule.claimed
  claimed : schedule.claimed ≤ T.amount

/-- The revocation waits for ledger `R`, or took effect there. -/
def Cut (T : Terms) (R now : ℕ) (schedule : BeneficiarySchedule) : Prop :=
  (schedule.revoked = true ∧ schedule.revocationLedger = R ∧ R ≤ now) ∨
  (schedule.revoked = false ∧ schedule.revocationPending = true ∧
    saturatingAddU32 schedule.revocationLedger T.delay = R)

inductive Phase (T : Terms) (now : ℕ) (past : List (Entry State Invocation)) (s : State) : Prop where
  | granted (schedule : BeneficiarySchedule) (tracks : Tracks T s schedule)
      (fresh : schedule.revoked = false ∧ schedule.revocationPending = false)
      (unrevoked : ∀ e ∈ past, e.invocation.call ≠ .revoke T.beneficiary)
      (kept : returned T.beneficiary s = 0)
      (within : schedule.claimed ≤ T.vested now)
  | cut (schedule : BeneficiarySchedule) (R : ℕ) (tracks : Tracks T s schedule)
      (cut : Cut T R now schedule)
      (revoked : ∃ e ∈ past, e.invocation.call = .revoke T.beneficiary)
      (when : ∀ e ∈ past, e.invocation.call = .revoke T.beneficiary →
        e.invocation.sequence + T.delay = R)
      (kept : returned T.beneficiary s = 0 ∨
        (returned T.beneficiary s = T.amount ∧ R < T.cliffLedger ∧ schedule.revoked = true))
      (within : (∀ e ∈ past, Careful T.beneficiary e.before e.invocation) →
        schedule.claimed ≤ T.vested R)

theorem Terms.vested_mono (T : Terms) (h : now ≤ later) : T.vested now ≤ T.vested later :=
  linear_mono T.positive.le h

theorem Terms.vested_cut (T : Terms) {vested : ℤ}
    (h : vestedAmount T.amount T.cliffLedger R now = .ok vested) (hcut : R ≤ now) :
    vested = if now < T.cliffLedger then 0 else T.amount :=
  vestedAmount_cut h hcut

theorem Cut.mono (h : Cut T R now schedule) (hlater : now ≤ later) : Cut T R later schedule := by
  rcases h with ⟨hrevoked, hledger, hnow⟩ | hwaiting
  · exact .inl ⟨hrevoked, hledger, hnow.trans hlater⟩
  · exact .inr hwaiting

theorem Cut.flag (h : Cut T R now schedule) :
    schedule.revoked = true ∨ schedule.revocationPending = true := by
  rcases h with ⟨hrevoked, _⟩ | ⟨_, hpending, _⟩
  · exact .inl hrevoked
  · exact .inr hpending

theorem Cut.cutoffOf_eq (h : Cut T R now schedule) : cutoffOf schedule T.delay = R := by
  unfold cutoffOf
  rcases h with ⟨hrevoked, hledger, _⟩ | ⟨hrevoked, _, hledger⟩
  · rw [if_pos hrevoked, hledger]
  · rw [if_neg (by simp [hrevoked]), hledger]

theorem Cut.effectiveEnd_eq (h : Cut T R now schedule) :
    effectiveEnd schedule T.delay now = if R ≤ now then R else schedule.endLedger := by
  unfold effectiveEnd
  rcases h with ⟨hrevoked, hledger, hnow⟩ | ⟨hrevoked, hpending, hledger⟩
  · rw [if_pos hrevoked, hledger, if_pos hnow]
  · rw [if_neg (by simp [hrevoked]), if_pos hpending, hledger]

theorem Phase.mono (h : Phase T now past s) (hlater : now ≤ later) : Phase T later past s := by
  cases h with
  | granted schedule tracks fresh unrevoked kept within =>
    exact .granted schedule tracks fresh unrevoked kept (within.trans (T.vested_mono hlater))
  | cut schedule R tracks cut revoked when kept within =>
    exact .cut schedule R tracks (cut.mono hlater) revoked when kept within

theorem Tracks.of_away (h : Tracks T s schedule) (haway : Away T.beneficiary s t)
    (hadmin : t.admin = s.admin) (hdelay : revocationDelay t = revocationDelay s) :
    Tracks T t schedule where
  admin := by rw [hadmin]; exact h.admin
  delay := hdelay.trans h.delay
  lookup := haway.lookup.trans h.lookup
  amount := h.amount
  cliff := h.cliff
  stop := h.stop
  paid := haway.paid.trans h.paid
  nonneg := h.nonneg
  claimed := h.claimed

/-- A claim pays what the claim found due. -/
theorem Tracks.claim {vested : ℤ} (h : Tracks T s schedule) (hadmin : t.admin = s.admin)
    (hdelay : revocationDelay t = revocationDelay s)
    (hstored : t.schedules.lookup T.beneficiary = some { schedule with claimed := vested })
    (hpaid : Vesting.paid T.beneficiary t =
      Vesting.paid T.beneficiary s + (vested - schedule.claimed))
    (hmore : schedule.claimed < vested) (hvested : vested ≤ T.amount) :
    Tracks T t { schedule with claimed := vested } where
  admin := by rw [hadmin]; exact h.admin
  delay := hdelay.trans h.delay
  lookup := hstored
  amount := h.amount
  cliff := h.cliff
  stop := h.stop
  paid := by
    rw [hpaid, h.paid]
    dsimp only
    omega
  nonneg := h.nonneg.trans hmore.le
  claimed := hvested

/-- A revocation, or its end, keeps terms and payments. -/
theorem Tracks.mark {after : BeneficiarySchedule} (h : Tracks T s schedule)
    (hadmin : t.admin = s.admin) (hdelay : revocationDelay t = revocationDelay s)
    (hstored : t.schedules.lookup T.beneficiary = some after)
    (hsame : after.amount = schedule.amount ∧ after.cliffLedger = schedule.cliffLedger ∧
      after.endLedger = schedule.endLedger ∧ after.claimed = schedule.claimed)
    (hpaid : Vesting.paid T.beneficiary t = Vesting.paid T.beneficiary s) : Tracks T t after := by
  obtain ⟨hamount, hcliff, hstop, hclaimed⟩ := hsame
  refine ⟨?_, hdelay.trans h.delay, hstored, hamount.trans h.amount, hcliff.trans h.cliff,
    hstop.trans h.stop, ?_, ?_, ?_⟩
  · rw [hadmin]
    exact h.admin
  · rw [hpaid, h.paid, hclaimed]
  · rw [hclaimed]
    exact h.nonneg
  · rw [hclaimed]
    exact h.claimed

theorem Tracks.vested_eq {vested : ℤ} {stop : ℕ} (h : Tracks T s schedule)
    (hstop : stop = schedule.endLedger)
    (hdue : vestedAmount schedule.amount schedule.cliffLedger stop now = .ok vested) :
    vested = T.vested now := by
  rw [hstop, h.amount, h.cliff, h.stop] at hdue
  exact vestedAmount_ok hdue T.positive.le

theorem Tracks.vested_cut {vested : ℤ} (h : Tracks T s schedule) (hcut : R ≤ now)
    (hdue : vestedAmount schedule.amount schedule.cliffLedger R now = .ok vested)
    (hmore : schedule.claimed < vested) : vested = T.amount := by
  rw [h.amount, h.cliff] at hdue
  have hvested := T.vested_cut hdue hcut
  have hnonneg := h.nonneg
  split at hvested <;> omega

theorem careful_concat {b : Address} :
    (∀ e ∈ past ++ [⟨s, i, t⟩], Careful b e.before e.invocation) ↔
      (∀ e ∈ past, Careful b e.before e.invocation) ∧ Careful b s i := by
  rw [List.forall_mem_append, List.forall_mem_singleton]

theorem Careful.claim_end (hcareful : Careful T.beneficiary s i) (h : Tracks T s schedule)
    (hcut : Cut T R i.sequence schedule) (hcall : i.call = .claim T.beneficiary)
    (hlate : R ≤ i.sequence) : T.endLedger ≤ R := by
  have hcutoff := hcut.cutoffOf_eq
  have hcase := hcareful schedule h.lookup hcut.flag
  rw [h.delay, hcutoff] at hcase
  rcases hcase hlate with hend | ⟨hnot, _⟩
  · rwa [h.stop] at hend
  · exact absurd hcall hnot

/-- The condition on the calls of the course: the delay is fixed, and its arithmetic succeeds. -/
def Fits (T : Terms) (i : Invocation) : Prop :=
  (∀ delay, i.call ≠ .setRevocationDelay delay) ∧
    (i.call = .revoke T.beneficiary → i.sequence + T.delay ≤ u32Max)

theorem Phase.claimed_step {vested : ℤ} (hs : Phase T i.sequence past s)
    (hterms : t.admin = s.admin ∧ revocationDelay t = revocationDelay s)
    (hcall : i.call = .claim T.beneficiary)
    (hfound : s.schedules.lookup T.beneficiary = some schedule)
    (hdue : vestedAmount schedule.amount schedule.cliffLedger
      (effectiveEnd schedule (revocationDelay s) i.sequence) i.sequence = .ok vested)
    (hmore : schedule.claimed < vested)
    (hstored : t.schedules.lookup T.beneficiary = some { schedule with claimed := vested })
    (hpaid : paid T.beneficiary t = paid T.beneficiary s + (vested - schedule.claimed))
    (hreturned : returned T.beneficiary t = returned T.beneficiary s) :
    Phase T i.sequence (past ++ [⟨s, i, t⟩]) t := by
  obtain ⟨hadmin, hdelay⟩ := hterms
  cases hs with
  | granted known tracks fresh unrevoked kept within =>
    obtain rfl := Option.some_inj.mp (tracks.lookup.symm.trans hfound)
    have hend : effectiveEnd known (revocationDelay s) i.sequence = known.endLedger := by
      rw [effectiveEnd, if_neg (by simp [fresh.1]), if_neg (by simp [fresh.2])]
    have hvested := tracks.vested_eq hend hdue
    have hle : vested ≤ T.amount := hvested.trans_le (linear_le T.positive.le)
    refine .granted _ (tracks.claim hadmin hdelay hstored hpaid hmore hle) fresh ?_
      (hreturned.trans kept) hvested.le
    rw [List.forall_mem_append, List.forall_mem_singleton]
    exact ⟨unrevoked, by simp [hcall]⟩
  | cut known R tracks cut revoked when kept within =>
    obtain rfl := Option.some_inj.mp (tracks.lookup.symm.trans hfound)
    rw [tracks.delay, cut.effectiveEnd_eq] at hdue
    have hamount : vested ≤ T.amount ∧
        (Careful T.beneficiary s i → vested ≤ T.vested R) := by
      split at hdue
      · next hlate =>
        have hall := tracks.vested_cut hlate hdue hmore
        refine ⟨hall.le, fun hcareful => ?_⟩
        have hend := hcareful.claim_end tracks cut hcall hlate
        rw [hall, Terms.vested, linear_of_end T.cliff_lt hend]
      · next hearly =>
        have hvested := tracks.vested_eq rfl hdue
        refine ⟨hvested.trans_le (linear_le T.positive.le), fun _ => ?_⟩
        rw [hvested]
        exact T.vested_mono (by omega)
    refine .cut _ R (tracks.claim hadmin hdelay hstored hpaid hmore hamount.1) cut ?_ ?_ ?_ ?_
    · obtain ⟨e, he, hrevoke⟩ := revoked
      exact ⟨e, List.mem_append_left _ he, hrevoke⟩
    · rw [List.forall_mem_append, List.forall_mem_singleton]
      exact ⟨when, by simp [hcall]⟩
    · rw [hreturned]
      exact kept
    · rw [careful_concat]
      intro hcareful
      exact hamount.2 hcareful.2

theorem Phase.revoked_step {after : BeneficiarySchedule} (hs : Phase T i.sequence past s)
    (hterms : t.admin = s.admin ∧ revocationDelay t = revocationDelay s) (hfits : Fits T i)
    (hcall : i.call = .revoke T.beneficiary)
    (hfound : s.schedules.lookup T.beneficiary = some schedule)
    (hfresh : schedule.revoked = false ∧ schedule.revocationPending = false)
    (hafter : after = if revocationDelay s = 0
      then { schedule with revoked := true, revocationLedger := i.sequence }
      else { schedule with revocationPending := true, revocationLedger := i.sequence })
    (hstored : t.schedules.lookup T.beneficiary = some after)
    (hpaid : paid T.beneficiary t = paid T.beneficiary s)
    (hreturned : returned T.beneficiary t = returned T.beneficiary s) :
    Phase T i.sequence (past ++ [⟨s, i, t⟩]) t := by
  obtain ⟨hadmin, hdelay⟩ := hterms
  cases hs with
  | granted known tracks fresh unrevoked kept within =>
    obtain rfl := Option.some_inj.mp (tracks.lookup.symm.trans hfound)
    rw [tracks.delay] at hafter
    have hsame : after.amount = known.amount ∧ after.cliffLedger = known.cliffLedger ∧
        after.endLedger = known.endLedger ∧ after.claimed = known.claimed := by
      rw [hafter]
      split_ifs
      · exact ⟨rfl, rfl, rfl, rfl⟩
      · exact ⟨rfl, rfl, rfl, rfl⟩
    have hcut : Cut T (i.sequence + T.delay) i.sequence after := by
      have hmax := hfits.2 hcall
      rw [hafter]
      split_ifs with hzero
      · exact .inl ⟨rfl, by rw [hzero, Nat.add_zero], by omega⟩
      · refine .inr ⟨fresh.1, rfl, ?_⟩
        unfold saturatingAddU32
        dsimp only
        omega
    refine .cut after _ (tracks.mark hadmin hdelay hstored hsame hpaid) hcut ?_ ?_ ?_ ?_
    · exact ⟨_, List.mem_append_right _ List.mem_cons_self, hcall⟩
    · rw [List.forall_mem_append, List.forall_mem_singleton]
      exact ⟨fun e he hrevoke => absurd hrevoke (unrevoked e he), fun _ => rfl⟩
    · rw [hreturned]
      exact .inl kept
    · intro _
      rw [hsame.2.2.2]
      exact within.trans (T.vested_mono (by omega))
  | cut known R tracks cut revoked when kept within =>
    obtain rfl := Option.some_inj.mp (tracks.lookup.symm.trans hfound)
    rcases cut.flag with hflag | hflag
    · simp [hfresh.1] at hflag
    · simp [hfresh.2] at hflag

theorem Phase.finalized_step {cutoff : ℕ} {vested : ℤ} (hs : Phase T i.sequence past s)
    (hterms : t.admin = s.admin ∧ revocationDelay t = revocationDelay s)
    (hcall : i.call = .finalizeRevocation T.beneficiary)
    (hfound : s.schedules.lookup T.beneficiary = some schedule)
    (hwaiting : schedule.revoked = false ∧ schedule.revocationPending = true)
    (hcutoff : cutoff = saturatingAddU32 schedule.revocationLedger (revocationDelay s))
    (hdue : cutoff ≤ i.sequence)
    (hvested : vestedAmount schedule.amount schedule.cliffLedger cutoff i.sequence = .ok vested)
    (hstored : t.schedules.lookup T.beneficiary = some { schedule with
      revoked := true, revocationPending := false, revocationLedger := cutoff })
    (hpaid : paid T.beneficiary t = paid T.beneficiary s)
    (hreturned : returned T.beneficiary t =
      returned T.beneficiary s + max 0 (schedule.amount - vested)) :
    Phase T i.sequence (past ++ [⟨s, i, t⟩]) t := by
  obtain ⟨hadmin, hdelay⟩ := hterms
  cases hs with
  | granted known tracks fresh unrevoked kept within =>
    obtain rfl := Option.some_inj.mp (tracks.lookup.symm.trans hfound)
    simp [fresh.2] at hwaiting
  | cut known R tracks cut revoked when kept within =>
    obtain rfl := Option.some_inj.mp (tracks.lookup.symm.trans hfound)
    have hR : cutoff = R := by
      rcases cut with ⟨hflag, _⟩ | ⟨_, _, hledger⟩
      · simp [hwaiting.1] at hflag
      · rw [hcutoff, tracks.delay, hledger]
    subst hR
    refine .cut _ cutoff (tracks.mark hadmin hdelay hstored ⟨rfl, rfl, rfl, rfl⟩ hpaid)
      (.inl ⟨rfl, rfl, hdue⟩) ?_ ?_ ?_ ?_
    · obtain ⟨e, he, hrevoke⟩ := revoked
      exact ⟨e, List.mem_append_left _ he, hrevoke⟩
    · rw [List.forall_mem_append, List.forall_mem_singleton]
      exact ⟨when, by simp [hcall]⟩
    · have hzero : returned T.beneficiary s = 0 := by
        rcases kept with hzero | ⟨_, _, hflag⟩
        · exact hzero
        · simp [hwaiting.1] at hflag
      rw [tracks.amount, tracks.cliff] at hvested
      have hsplit := T.vested_cut hvested hdue
      have hpositive := T.positive
      rw [hreturned, hzero, tracks.amount]
      split at hsplit
      · exact .inr ⟨by omega, by omega, rfl⟩
      · exact .inl (by omega)
    · rw [careful_concat]
      intro hcareful
      exact within hcareful.1

theorem Phase.step (hs : Phase T i.sequence past s) (hfits : Fits T i)
    (h : exec house i s = .ok t) : Phase T i.sequence (past ++ [⟨s, i, t⟩]) t := by
  have hset : s.admin ≠ none := by
    cases hs with
    | granted schedule tracks => exact tracks.admin
    | cut schedule R tracks => exact tracks.admin
  have hterms := exec_delay h hset hfits.1
  cases exec_move T.beneficiary h with
  | away unclaimed notRevoked pending away =>
    cases hs with
    | granted schedule tracks fresh unrevoked kept within =>
      refine .granted schedule (tracks.of_away away hterms.1 hterms.2) fresh ?_
        (away.returned.trans kept) within
      rw [List.forall_mem_append, List.forall_mem_singleton]
      exact ⟨unrevoked, notRevoked⟩
    | cut schedule R tracks cut revoked when kept within =>
      refine .cut schedule R (tracks.of_away away hterms.1 hterms.2) cut ?_ ?_ ?_ ?_
      · obtain ⟨e, he, hrevoke⟩ := revoked
        exact ⟨e, List.mem_append_left _ he, hrevoke⟩
      · rw [List.forall_mem_append, List.forall_mem_singleton]
        exact ⟨when, fun hrevoke => absurd hrevoke notRevoked⟩
      · rw [away.returned]
        exact kept
      · rw [careful_concat]
        intro hcareful
        exact within hcareful.1
  | created schedule fresh stored =>
    cases hs with
    | granted known tracks => simp [tracks.lookup] at fresh
    | cut known R tracks => simp [tracks.lookup] at fresh
  | claimed schedule vested call found due more stored hpaid hreturned =>
    exact hs.claimed_step hterms call found due more stored hpaid hreturned
  | revoked schedule after call found fresh after_eq stored hpaid hreturned =>
    exact hs.revoked_step hterms hfits call found fresh after_eq stored hpaid hreturned
  | finalized schedule cutoff vested call found waiting cutoff_eq due vested_eq stored hpaid
      hreturned =>
    exact hs.finalized_step hterms call found waiting cutoff_eq due vested_eq stored hpaid hreturned

/-- What is paid never shrinks. -/
theorem Phase.paid_le (hs : Phase T now past s) (h : exec house i s = .ok t) :
    paid T.beneficiary s ≤ paid T.beneficiary t := by
  cases exec_move T.beneficiary h with
  | away _ _ _ away => exact away.paid.ge
  | created schedule fresh stored =>
    cases hs with
    | granted known tracks => simp [tracks.lookup] at fresh
    | cut known R tracks => simp [tracks.lookup] at fresh
  | claimed schedule vested _ _ _ more _ hpaid =>
    rw [hpaid]
    omega
  | revoked _ _ _ _ _ _ _ hpaid => exact hpaid.ge
  | finalized _ _ _ _ _ _ _ _ _ _ hpaid => exact hpaid.ge

/-- A claim after the cut-off pays up to the whole amount. -/
theorem claim_after_cut (tracks : Tracks T s schedule) (hcut : Cut T R i.sequence schedule)
    (h : exec house i s = .ok t) (hcall : i.call = .claim T.beneficiary)
    (hlate : R ≤ i.sequence) : paid T.beneficiary t = T.amount := by
  cases exec_move T.beneficiary h with
  | away unclaimed => exact absurd hcall unclaimed
  | created known fresh => simp [tracks.lookup] at fresh
  | claimed known vested call found due more stored hpaid =>
    obtain rfl := Option.some_inj.mp (tracks.lookup.symm.trans found)
    rw [tracks.delay, hcut.effectiveEnd_eq, if_pos hlate] at due
    have hall := tracks.vested_cut hlate due more
    rw [hpaid, tracks.paid, hall]
    omega
  | revoked known after call => simp [hcall] at call
  | finalized known cutoff vested call => simp [hcall] at call

/-- Finalizing pays the admin everything before the cliff and nothing after it. -/
theorem finalize_after_cut (hs : Phase T i.sequence past s) (h : exec house i s = .ok t)
    (hcall : i.call = .finalizeRevocation T.beneficiary) :
    ∃ schedule R, Tracks T s schedule ∧ Cut T R i.sequence schedule ∧ R ≤ i.sequence ∧
      (∀ e ∈ past, e.invocation.call = .revoke T.beneficiary →
        e.invocation.sequence + T.delay = R) ∧
      (∃ e ∈ past, e.invocation.call = .revoke T.beneficiary) ∧
      returned T.beneficiary t = if i.sequence < T.cliffLedger then T.amount else 0 := by
  cases exec_move T.beneficiary h with
  | away _ _ pending => exact absurd hcall pending
  | created known fresh =>
    cases hs with
    | granted other tracks => simp [tracks.lookup] at fresh
    | cut other R tracks => simp [tracks.lookup] at fresh
  | claimed known vested call => simp [hcall] at call
  | revoked known after call => simp [hcall] at call
  | finalized known cutoff vested call found waiting cutoff_eq due vested_eq stored _ hreturned =>
    cases hs with
    | granted other tracks fresh =>
      obtain rfl := Option.some_inj.mp (tracks.lookup.symm.trans found)
      simp [fresh.2] at waiting
    | cut other R tracks cut revoked when kept within =>
      obtain rfl := Option.some_inj.mp (tracks.lookup.symm.trans found)
      rcases id cut with ⟨hflag, _⟩ | ⟨_, _, hledger⟩
      · simp [waiting.1] at hflag
      · rw [tracks.delay, hledger] at cutoff_eq
        subst cutoff_eq
        refine ⟨other, cutoff, tracks, cut, due, when, revoked, ?_⟩
        have hzero : returned T.beneficiary s = 0 := by
          rcases kept with hzero | ⟨_, _, hflag⟩
          · exact hzero
          · simp [waiting.1] at hflag
        rw [tracks.amount, tracks.cliff] at vested_eq
        have hsplit := T.vested_cut vested_eq due
        have hpositive := T.positive
        rw [hreturned, hzero, tracks.amount]
        split at hsplit
        · next hearly =>
          rw [if_pos hearly]
          omega
        · next hlate =>
          rw [if_neg hlate]
          omega

end Course

end SorobanKit.Vesting
