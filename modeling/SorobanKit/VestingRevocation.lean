import SorobanKit.VestingCourse

set_option autoImplicit false

/-!
# What a revocation leaves to whom

Vesting stops at the ledger at which a revocation takes effect, but `claim` and
`finalize_revocation` put that ledger in the place of the end of the schedule, where everything has
vested.
-/
namespace SorobanKit.Vesting
open HostInteger HostInvocation HostTransfers
open HostRuns (Entry Along along_true history_split_timed)

/-- What the last call before ledger `R` left paid. -/
def paidBefore (b : Address) (R : ℕ) (all : List (Entry State Invocation)) : ℤ :=
  ((all.filter fun e => e.invocation.sequence < R).getLast?.map fun e => paid b e.after).getD 0

/-- How an amount is split between beneficiary and admin if `vested` had vested at ledger `R`. -/
structure Split (b : Address) (amount vested : ℤ) (R : ℕ) (all : List (Entry State Invocation)) :
    Prop where
  bound : ∀ e ∈ all, paid b e.after ≤ max (paidBefore b R all) vested
  claim : ∀ e ∈ all, e.invocation.call = .claim b → R ≤ e.invocation.sequence →
    paid b e.after = vested
  finalize : ∀ e ∈ all, e.invocation.call = .finalizeRevocation b →
    returned b e.after = amount - vested
  sum : ∀ e ∈ all, paid b e.after + returned b e.after ≤ amount

/-- Every revocation splits the amount by what has vested when it takes effect. -/
def SplitsAtCutoff (b : Address) (amount : ℤ) (cliffLedger endLedger delay : ℕ)
    (all : List (Entry State Invocation)) : Prop :=
  ∀ e ∈ all, e.invocation.call = .revoke b → ∀ vested,
    vestedAmount amount cliffLedger endLedger (e.invocation.sequence + delay) = .ok vested →
      Split b amount vested (e.invocation.sequence + delay) all

section Law
variable {house b : Address} {i : Invocation} {s t : State} {T : Terms}

theorem unpaid_of_fresh (house b : Address) (is : List Invocation) :
    (run house is).schedules.lookup b = none →
      paid b (run house is) = 0 ∧ returned b (run house is) = 0 := by
  let Unpaid : State → Prop := fun s => s.schedules.lookup b = none → paid b s = 0 ∧ returned b s = 0
  have hstep : ∀ s i t, Unpaid s → exec house i s = .ok t → Unpaid t := by
    intro s i t hs h hnone
    cases exec_move b h with
    | away _ _ _ away =>
      rw [away.lookup] at hnone
      rw [away.paid, away.returned]
      exact hs hnone
    | created schedule _ stored => simp [stored] at hnone
    | claimed schedule vested _ _ _ _ stored => simp [stored] at hnone
    | revoked schedule after _ _ _ _ stored => simp [stored] at hnone
    | finalized schedule cutoff vested _ _ _ _ _ _ stored => simp [stored] at hnone
  exact HostRuns.run_invariant hstep (fun _ => ⟨rfl, rfl⟩) is

/-- The course of a schedule, and its payments so far. -/
def Course (T : Terms) (now : ℕ) (past : List (Entry State Invocation)) (s : State) : Prop :=
  Phase T now past s ∧ ∀ e ∈ past, paid T.beneficiary e.after ≤ paid T.beneficiary s

theorem course_start {y : Transfer Purpose} {rev : Bool} (hadmin : s.admin ≠ none)
    (hunpaid : paid T.beneficiary s = 0 ∧ returned T.beneficiary s = 0)
    (hy : y.purpose = .deposit T.beneficiary) (hdelay : T.delay = revocationDelay s) :
    Course T 0 [] { putSchedule T.beneficiary
      ⟨T.amount, T.cliffLedger, T.endLedger, 0, false, rev, false, 0⟩ s with
        transfers := s.transfers ++ [y] } := by
  refine ⟨.granted ⟨T.amount, T.cliffLedger, T.endLedger, 0, false, rev, false, 0⟩
    ⟨hadmin, hdelay.symm, lookup_putSchedule _, rfl, rfl, rfl, ?_, le_refl _, T.positive.le⟩ ⟨rfl, rfl⟩
    ?_ ?_ ?_, ?_⟩
  · refine (paid_append y).trans ?_
    rw [if_neg (by simp [hy])]
    exact (Int.add_zero _).trans hunpaid.1
  · intro e he
    cases he
  · refine (returned_append y).trans ?_
    rw [if_neg (by simp [hy])]
    exact (Int.add_zero _).trans hunpaid.2
  · exact linear_nonneg T.positive.le
  · intro e he
    cases he

/-- A revocation in the past leaves one cut-off for all calls, and careful calls pay no more than what
    has vested then. -/
theorem Course.one_cutoff {all : List (Entry State Invocation)} {now : ℕ}
    {e : Entry State Invocation} (hs : Course T now all s) (he : e ∈ all)
    (hrevoke : e.invocation.call = .revoke T.beneficiary)
    (hcareful : ∀ f ∈ all, Careful T.beneficiary f.before f.invocation) :
    (∀ f ∈ all, f.invocation.call = .revoke T.beneficiary →
      f.invocation.sequence + T.delay = e.invocation.sequence + T.delay) ∧
    ∀ f ∈ all, paid T.beneficiary f.after ≤ T.vested (e.invocation.sequence + T.delay) := by
  cases hs.1 with
  | granted schedule tracks fresh unrevoked => exact absurd hrevoke (unrevoked e he)
  | cut schedule R tracks cut revoked when kept within =>
    have hR := when e he hrevoke
    rw [hR]
    refine ⟨when, fun f hf => (hs.2 f hf).trans ?_⟩
    rw [tracks.paid]
    exact within hcareful

theorem Course.step {past : List (Entry State Invocation)} (hs : Course T i.sequence past s)
    (hfits : Fits T i) (h : exec house i s = .ok t) :
    Course T i.sequence (past ++ [⟨s, i, t⟩]) t := by
  refine ⟨hs.1.step hfits h, ?_⟩
  rw [List.forall_mem_append, List.forall_mem_singleton]
  exact ⟨fun e he => (hs.2 e he).trans (hs.1.paid_le h), le_refl _⟩

theorem careful_of_split {past all : List (Entry State Invocation)} {e : Entry State Invocation}
    (hs : Phase T e.invocation.sequence past e.before)
    (h : exec house e.invocation e.before = .ok e.after) (he : e ∈ all) (hpast : ∀ f ∈ past, f ∈ all)
    (harith : ∀ f ∈ all, f.invocation.call = .revoke T.beneficiary → ∃ vested,
      vestedAmount T.amount T.cliffLedger T.endLedger (f.invocation.sequence + T.delay) = .ok vested)
    (hlaw : SplitsAtCutoff T.beneficiary T.amount T.cliffLedger T.endLedger T.delay all) :
    Careful T.beneficiary e.before e.invocation := by
  intro schedule hfound hflag hlate
  cases id hs with
  | granted known tracks fresh =>
    obtain rfl := Option.some_inj.mp (tracks.lookup.symm.trans hfound)
    simp [fresh.1, fresh.2] at hflag
  | cut known R tracks cut revoked when kept =>
    obtain rfl := Option.some_inj.mp (tracks.lookup.symm.trans hfound)
    rw [tracks.delay, cut.cutoffOf_eq] at hlate ⊢
    obtain ⟨f, hf, hrevoke⟩ := revoked
    obtain ⟨vested, hvested⟩ := harith f (hpast f hf) hrevoke
    have hsplit := hlaw f (hpast f hf) hrevoke vested hvested
    rw [when f hf hrevoke] at hsplit hvested
    have hline := vestedAmount_ok hvested T.positive.le
    rw [tracks.stop, tracks.cliff]
    by_cases hend : T.endLedger ≤ R
    · exact .inl hend
    · have hless : vested < T.amount := by
        rw [hline]
        exact linear_lt T.cliff_lt T.positive (by omega)
      refine .inr ⟨fun hcall => ?_, fun hcall => ?_⟩
      · have hpays := claim_after_cut tracks cut h hcall hlate
        rw [hsplit.claim e he hcall hlate] at hpays
        omega
      · obtain ⟨_, _, _, _, _, _, _, hreturned⟩ := finalize_after_cut hs h hcall
        rw [hsplit.finalize e he hcall] at hreturned
        by_contra hcliff
        rw [if_neg hcliff] at hreturned
        omega

/-- One careful call keeps to the split at `R`, as long as what is paid keeps to it. -/
theorem Course.keeps {past : List (Entry State Invocation)} {R : ℕ}
    (hs : Course T i.sequence past s) (hfits : Fits T i) (h : exec house i s = .ok t)
    (hcareful : ∀ e ∈ past ++ [⟨s, i, t⟩], Careful T.beneficiary e.before e.invocation)
    (hR : ∀ e ∈ past ++ [⟨s, i, t⟩], e.invocation.call = .revoke T.beneficiary →
      e.invocation.sequence + T.delay = R)
    (hbound : paid T.beneficiary t ≤ T.vested R) :
    (i.call = .claim T.beneficiary → R ≤ i.sequence → paid T.beneficiary t = T.vested R) ∧
    (i.call = .finalizeRevocation T.beneficiary →
      returned T.beneficiary t = T.amount - T.vested R) ∧
    paid T.beneficiary t + returned T.beneficiary t ≤ T.amount := by
  have hnow := (careful_concat.mp hcareful).2
  refine ⟨fun hcall hlate => ?_, fun hcall => ?_, ?_⟩
  · cases hs.1 with
    | granted schedule tracks fresh unrevoked kept within =>
      -- claimed in the ledger of the revocation, before it
      have hpaid : paid T.beneficiary t = T.vested i.sequence := by
        cases exec_move T.beneficiary h with
        | away unclaimed => exact absurd hcall unclaimed
        | created known fresh => simp [tracks.lookup] at fresh
        | claimed known vested call found due more stored hpaid =>
          obtain rfl := Option.some_inj.mp (tracks.lookup.symm.trans found)
          have hend : effectiveEnd schedule (revocationDelay s) i.sequence = schedule.endLedger := by
            rw [effectiveEnd, if_neg (by simp [fresh.1]), if_neg (by simp [fresh.2])]
          rw [hpaid, tracks.paid, tracks.vested_eq hend due]
          omega
        | revoked known after call => simp [hcall] at call
        | finalized known cutoff vested call => simp [hcall] at call
      have hmono := T.vested_mono hlate
      omega
    | cut schedule R' tracks cut revoked when kept within =>
      obtain ⟨e, he, hrevoke⟩ := revoked
      obtain rfl : R' = R := (when e he hrevoke).symm.trans (hR e (List.mem_append_left _ he) hrevoke)
      have hend := hnow.claim_end tracks cut hcall hlate
      rw [claim_after_cut tracks cut h hcall hlate, Terms.vested, linear_of_end T.cliff_lt hend]
  · obtain ⟨schedule, R', tracks, cut, hdue, when, ⟨e, he, hrevoke⟩, hreturned⟩ :=
      finalize_after_cut hs.1 h hcall
    obtain rfl : R' = R := (when e he hrevoke).symm.trans (hR e (List.mem_append_left _ he) hrevoke)
    have hcase := hnow schedule tracks.lookup cut.flag
    rw [tracks.delay, cut.cutoffOf_eq, tracks.stop, tracks.cliff] at hcase
    rw [hreturned]
    rcases hcase hdue with hend | ⟨_, hearly⟩
    · have hcliff := T.cliff_lt
      rw [if_neg (by omega), Terms.vested, linear_of_end T.cliff_lt hend]
      omega
    · have hcliff := hearly hcall
      rw [if_pos hcliff, Terms.vested, linear, if_pos (by omega)]
      omega
  · cases (hs.step hfits h).1 with
    | granted schedule tracks fresh unrevoked kept within =>
      rw [tracks.paid, kept]
      have hclaimed := tracks.claimed
      omega
    | cut schedule R' tracks cut revoked when kept within =>
      rcases kept with hzero | ⟨hall, hcliff, _⟩
      · rw [tracks.paid, hzero]
        have hclaimed := tracks.claimed
        omega
      · obtain ⟨e, he, hrevoke⟩ := revoked
        obtain rfl : R' = R := (when e he hrevoke).symm.trans (hR e he hrevoke)
        rw [Terms.vested, linear, if_pos hcliff] at hbound
        omega

/-- In every run with a fixed delay, revocations split the amount of a schedule by what has vested
    when they take effect exactly if every call that returned was careful. -/
theorem revocation_split_iff (house : Address) (is₀ : List Invocation) (i₀ : Invocation) (s₀ : State)
    (is : List Invocation) (b : Address) (cliffLedger endLedger : ℕ) (amount : ℤ) (rev : Bool)
    (hcall : i₀.call = .createSchedule b cliffLedger endLedger amount rev)
    (hcreate : exec house i₀ (run house is₀) = .ok s₀)
    (hdelay : ∀ i ∈ is, ∀ delay, i.call ≠ .setRevocationDelay delay)
    (harith : ∀ i ∈ is, i.call = .revoke b → i.sequence + revocationDelay s₀ ≤ u32Max ∧
      ∃ vested, vestedAmount amount cliffLedger endLedger (i.sequence + revocationDelay s₀) =
        .ok vested)
    (hclock : is.Pairwise fun i j => i.sequence ≤ j.sequence) :
    SplitsAtCutoff b amount cliffLedger endLedger (revocationDelay s₀) (historyFrom house s₀ is) ↔
      ∀ e ∈ historyFrom house s₀ is, Careful b e.before e.invocation := by
  simp only [exec, hcall] at hcreate
  obtain ⟨hadmin, hamount, hcliff, hfresh, y, hy, hs₀⟩ := createSchedule_ok hcreate
  let T : Terms := ⟨b, amount, cliffLedger, endLedger, revocationDelay s₀, hamount, hcliff⟩
  have hstart : Course T 0 [] s₀ := by
    subst hs₀
    exact course_start hadmin (unpaid_of_fresh house b is₀ hfresh) hy rfl
  have hfits : Along (exec house) (fun _ i => Fits T i) s₀ is :=
    ((along_true (exec house) s₀ is).and_forall (Q := Fits T) fun i hi =>
      ⟨hdelay i hi, fun hrevoke => (harith i hi hrevoke).1⟩).mono fun _ _ h => h.2
  have hmono : ∀ now later past s, now ≤ later → Course T now past s → Course T later past s :=
    fun _ _ _ _ hle hs => ⟨hs.1.mono hle, hs.2⟩
  have hstep : ∀ past s i t, Course T i.sequence past s → Fits T i → exec house i s = .ok t →
      Course T i.sequence (past ++ [⟨s, i, t⟩]) t := fun _ _ _ _ hs hfit h => hs.step hfit h
  have hsplit : ∀ past e later, historyFrom house s₀ is = past ++ e :: later →
      Course T e.invocation.sequence past e.before ∧ Fits T e.invocation ∧
        exec house e.invocation e.before = .ok e.after := fun past e later heq =>
    history_split_timed (fun i => i.sequence) hmono hstep hstart hfits
      (fun _ _ => Nat.zero_le _) hclock heq
  constructor
  · intro hlaw e he
    obtain ⟨past, later, heq⟩ := List.append_of_mem he
    obtain ⟨hs, _, h⟩ := hsplit past e later heq
    refine careful_of_split hs.1 h he (fun f hf => ?_) (fun f hf hrevoke => ?_) hlaw
    · rw [heq]
      exact List.mem_append_left _ hf
    · exact (harith f.invocation (HostRuns.mem_of_mem_history hf) hrevoke).2
  · intro hcareful e he hrevoke vested hvested
    obtain ⟨last, hlast⟩ := HostRuns.history_invariant_timed (fun i => i.sequence) hmono hstep
      hstart hfits (fun _ _ => Nat.zero_le _) hclock
    obtain ⟨hR, hbound⟩ := hlast.one_cutoff he hrevoke hcareful
    have hline : vested = T.vested (e.invocation.sequence + T.delay) :=
      vestedAmount_ok hvested hamount.le
    have hkeeps : ∀ f ∈ historyFrom house s₀ is,
        (f.invocation.call = .claim b → e.invocation.sequence + T.delay ≤ f.invocation.sequence →
          paid b f.after = T.vested (e.invocation.sequence + T.delay)) ∧
        (f.invocation.call = .finalizeRevocation b →
          returned b f.after = amount - T.vested (e.invocation.sequence + T.delay)) ∧
        paid b f.after + returned b f.after ≤ amount := by
      intro f hf
      obtain ⟨past, later, heq⟩ := List.append_of_mem hf
      obtain ⟨hs, hfit, h⟩ := hsplit past f later heq
      have hwithin : ∀ g ∈ past ++ [f], g ∈ historyFrom house s₀ is := by
        intro g hg
        rw [heq, List.append_cons]
        exact List.mem_append_left _ hg
      exact hs.keeps hfit h (fun g hg => hcareful g (hwithin g hg))
        (fun g hg => hR g (hwithin g hg)) (hbound f hf)
    rw [hline]
    refine ⟨fun f hf => (hbound f hf).trans (le_max_right _ _), fun f hf => (hkeeps f hf).1,
      fun f hf => (hkeeps f hf).2.1, fun f hf => (hkeeps f hf).2.2⟩

end Law

def demoHouse : Address := ⟨0⟩
def demoAdmin : Address := ⟨1⟩
def demoToken : Address := ⟨2⟩
def demoBeneficiary : Address := ⟨3⟩
def demoOther : Address := ⟨4⟩

def demoLedger : Ledger := fun _ holder => if holder = demoAdmin then 5000 else 0

def demoInvoke (sequence : ℕ) (call : Call) : Invocation where
  sequence := sequence
  auths := [demoAdmin]
  tokens := honestReplies demoLedger
  call := call

/-- Before the grant: revocations wait for `delay` ledgers, and another schedule fills the pool. -/
def demoSetup (delay : ℕ) : List Invocation :=
  [demoInvoke 1 (.initializeVesting demoAdmin demoToken), demoInvoke 1 (.setRevocationDelay delay),
    demoInvoke 1 (.createSchedule demoOther 10 110 1000 true)]

/-- A thousand from ledger 10 to ledger 110. -/
def demoGrant : Invocation := demoInvoke 1 (.createSchedule demoBeneficiary 10 110 1000 true)

def demoGranted (delay : ℕ) : State := run demoHouse (demoSetup delay ++ [demoGrant])

/-- A revocation that takes effect after the end. -/
def demoLate : List Invocation :=
  [demoInvoke 30 (.claim demoBeneficiary), demoInvoke 40 (.revoke demoBeneficiary),
    demoInvoke 50 (.claim demoBeneficiary), demoInvoke 120 (.finalizeRevocation demoBeneficiary),
    demoInvoke 125 (.claim demoBeneficiary)]

theorem revocation_split_iff_demo :
    SplitsAtCutoff demoBeneficiary 1000 10 110 (revocationDelay (demoGranted 80))
      (historyFrom demoHouse (demoGranted 80) demoLate) := by
  refine (revocation_split_iff demoHouse (demoSetup 80) demoGrant (demoGranted 80) demoLate
    demoBeneficiary 10 110 1000 true rfl rfl ?_ ?_ (by decide)).mpr (by decide +kernel)
  · have hcalls : ∀ i ∈ demoLate, i.call = .claim demoBeneficiary ∨
        i.call = .revoke demoBeneficiary ∨ i.call = .finalizeRevocation demoBeneficiary := by decide
    intro i hi delay hcall
    simpa [hcall] using hcalls i hi
  · have hrevoke : ∀ i ∈ demoLate, i.call = .revoke demoBeneficiary → i.sequence = 40 := by decide
    intro i hi hcall
    rw [hrevoke i hi hcall]
    exact ⟨by decide, 1000, by decide⟩

/-- Revoked at half time, the beneficiary still claims everything. Revoked and finalized before the
    cliff, admin and beneficiary get the whole amount each. -/
theorem revoked_schedule_paid_whole :
    ¬ SplitsAtCutoff demoBeneficiary 1000 10 110 0 (historyFrom demoHouse (demoGranted 0)
      [demoInvoke 60 (.revoke demoBeneficiary), demoInvoke 60 (.claim demoBeneficiary)]) ∧
    ¬ SplitsAtCutoff demoBeneficiary 1000 10 110 2 (historyFrom demoHouse (demoGranted 2)
      [demoInvoke 3 (.revoke demoBeneficiary), demoInvoke 5 (.finalizeRevocation demoBeneficiary),
        demoInvoke 20 (.claim demoBeneficiary)]) := by
  constructor
  · intro h
    have hrevoke : ∃ e ∈ historyFrom demoHouse (demoGranted 0)
        [demoInvoke 60 (.revoke demoBeneficiary), demoInvoke 60 (.claim demoBeneficiary)],
        e.invocation.call = .revoke demoBeneficiary ∧ e.invocation.sequence = 60 := by
      decide +kernel
    have hclaim : ∃ e ∈ historyFrom demoHouse (demoGranted 0)
        [demoInvoke 60 (.revoke demoBeneficiary), demoInvoke 60 (.claim demoBeneficiary)],
        e.invocation.call = .claim demoBeneficiary ∧ 60 ≤ e.invocation.sequence ∧
          paid demoBeneficiary e.after ≠ 500 := by
      decide +kernel
    obtain ⟨e, he, hcall, hsequence⟩ := hrevoke
    obtain ⟨f, hf, hfcall, hflate, hpaid⟩ := hclaim
    have hsplit := h e he hcall 500 (by rw [hsequence]; decide)
    exact hpaid (hsplit.claim f hf hfcall (by rw [hsequence]; exact hflate))
  · intro h
    have hrevoke : ∃ e ∈ historyFrom demoHouse (demoGranted 2)
        [demoInvoke 3 (.revoke demoBeneficiary), demoInvoke 5 (.finalizeRevocation demoBeneficiary),
          demoInvoke 20 (.claim demoBeneficiary)],
        e.invocation.call = .revoke demoBeneficiary ∧ e.invocation.sequence = 3 := by
      decide +kernel
    have hsum : ∃ e ∈ historyFrom demoHouse (demoGranted 2)
        [demoInvoke 3 (.revoke demoBeneficiary), demoInvoke 5 (.finalizeRevocation demoBeneficiary),
          demoInvoke 20 (.claim demoBeneficiary)],
        paid demoBeneficiary e.after + returned demoBeneficiary e.after = 2000 := by
      decide +kernel
    obtain ⟨e, he, hcall, hsequence⟩ := hrevoke
    obtain ⟨f, hf, htotal⟩ := hsum
    have hsplit := h e he hcall 0 (by rw [hsequence]; decide)
    have hle := hsplit.sum f hf
    omega

end SorobanKit.Vesting
