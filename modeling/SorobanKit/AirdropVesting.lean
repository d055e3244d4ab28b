import SorobanKit.AirdropContract

set_option autoImplicit false

/-!
# Custody of vested claims

What a claim does not pay at once stays locked in a schedule. The contract always holds what is
locked: a batch is admitted against what is free, and then every entry takes at most its amount
from it, paid or locked.
-/
namespace SorobanKit.Airdrop
open CommonMath HostBalances HostInteger HostInvocation HostRuns HostTransfers Merkle

def VestingSchedule.remaining (schedule : VestingSchedule) : ℤ := schedule.total - schedule.released

/-- The sum over all schedules of a token. -/
def lockedIn (token : Address) (s : State) : ℤ :=
  sumBy (fun k schedule => if k.2 = token then schedule.remaining else 0) s.vesting

def stillLocked (recipient token : Address) (s : State) : ℤ :=
  ((s.vesting.lookup (recipient, token)).map VestingSchedule.remaining).getD 0

/-- What claims and releases of a token paid to a recipient. -/
def paidTo (recipient token : Address) (log : List (Transfer Purpose)) : ℤ :=
  sumOf (fun x => (x.purpose = .claim ∨ x.purpose = .release) ∧ x.token = token ∧
    x.target = recipient) log

/-- The amounts that a batch lists for a recipient and a token. -/
def amountsOf (recipient token : Address) (entries : List ClaimEntry) : List ℤ :=
  (entries.filter fun e => e.pair = (recipient, token)).map ClaimEntry.amount

def dueIn (token : Address) (entries : List ClaimEntry) : ℤ :=
  ((entries.filter fun e => e.token = token).map ClaimEntry.amount).sum

/-- The amounts that were settled for a recipient and a token. -/
def claimsOf {house : Address} (recipient token : Address)
    (past : List (Entry State (Invocation house VestingCall))) : List ℤ :=
  past.flatMap fun e =>
    match e.invocation.call with
    | .claimBatch entries _ _ => amountsOf recipient token entries
    | _ => []

/-- What the contract holds beyond what is locked. -/
def spare (house : Address) (ledger : Ledger) (token : Address) (s : State) : ℤ :=
  replay ledger s.transfers token house - lockedIn token s

/-- The largest `i128`. -/
def i128Max : ℤ := 170141183460469231731687303715884105727

structure Vested (house : Address) (ledger : Ledger) (claims : Address → Address → List ℤ)
    (s : State) : Prop where
  admin_isSome : s.admin.isSome
  config_ok : ∀ cfg, s.vestingConfig = some cfg → cfg.initialUnlockBps ≤ 10000
  locked_eq : ∀ token, entry s.totalLocked token = lockedIn token s
  locked_le : ∀ token, entry s.totalLocked token ≤ i128Max
  schedule_ok : ∀ k schedule, s.vesting.lookup k = some schedule →
    0 ≤ schedule.released ∧ schedule.released ≤ schedule.total ∧ schedule.total ≤ i128Max
  covered : ∀ token, 0 ≤ spare house ledger token s
  unclaimed : ∀ recipient token, isClaimed recipient token s = false →
    s.vesting.lookup (recipient, token) = none ∧ claims recipient token = [] ∧
      paidTo recipient token s.transfers = 0
  settled : ∀ recipient token, isClaimed recipient token s = true →
    ∃ amount, claims recipient token = [amount] ∧
      paidTo recipient token s.transfers + stillLocked recipient token s = amount

section Records
variable {house recipient token : Address} {ledger : Ledger} {s t : State}

theorem amountsOf_cons (e : ClaimEntry) (entries : List ClaimEntry) :
    amountsOf recipient token (e :: entries) =
      (if e.pair = (recipient, token) then [e.amount] else []) ++ amountsOf recipient token entries := by
  unfold amountsOf
  by_cases he : e.pair = (recipient, token)
  · simp [he]
  · simp [he]

theorem dueIn_cons (e : ClaimEntry) (entries : List ClaimEntry) :
    dueIn token (e :: entries) = (if e.token = token then e.amount else 0) + dueIn token entries := by
  unfold dueIn
  by_cases he : e.token = token
  · simp [he]
  · simp [he]

theorem dueIn_of_notMem {entries : List ClaimEntry} (h : token ∉ entries.map ClaimEntry.token) :
    dueIn token entries = 0 := by
  have hnone : entries.filter (fun e => e.token = token) = [] := by
    rw [List.filter_eq_nil_iff]
    intro e he heq
    exact h (List.mem_map.mpr ⟨e, he, of_decide_eq_true heq⟩)
  rw [dueIn, hnone]
  rfl

theorem paidTo_snoc (log : List (Transfer Purpose)) (x : Transfer Purpose) :
    paidTo recipient token (log ++ [x]) = paidTo recipient token log +
      if (x.purpose = .claim ∨ x.purpose = .release) ∧ x.token = token ∧ x.target = recipient
      then x.amount else 0 := by
  unfold paidTo
  rw [sumOf_append, sumOf_cons, sumOf_nil, add_zero]
  simp only [decide_eq_true_eq]

/-- What settling one entry does: it pays the liquid part and locks the rest, if there is any. -/
structure Settled (house : Address) (s : State) (e : ClaimEntry) (liquid : ℤ) (t : State) : Prop where
  liquid_nonneg : 0 ≤ liquid
  liquid_le : liquid ≤ e.amount
  locked_le : 0 < e.amount - liquid → e.amount - liquid ≤ i128Max ∧
    entry s.totalLocked e.token + (e.amount - liquid) ≤ i128Max
  after : ∃ startLedger durationLedgers, t = { s with
    claimed := s.claimed.insert e.pair true,
    vesting := if 0 < e.amount - liquid
      then s.vesting.insert e.pair ⟨e.amount - liquid, 0, startLedger, durationLedgers⟩
      else s.vesting,
    totalLocked := if 0 < e.amount - liquid
      then s.totalLocked.insert e.token (entry s.totalLocked e.token + (e.amount - liquid))
      else s.totalLocked,
    transfers := s.transfers ++
      if 0 < liquid then [⟨.claim, e.token, house, e.recipient, liquid⟩] else [] }

theorem liquidPart_ok {amount liquid : ℤ} (h : liquidPart amount s = .ok liquid)
    (hconfig : ∀ cfg, s.vestingConfig = some cfg → cfg.initialUnlockBps ≤ 10000)
    (hamount : 0 ≤ amount) : 0 ≤ liquid ∧ liquid ≤ amount := by
  unfold liquidPart at h
  split at h
  · next cfg hcfg =>
    rw [okOr_eq_ok] at h
    exact applyBpsFee_bounds h hamount (hconfig cfg hcfg)
  · rw [pure_eq_ok] at h
    omega

theorem lockRest_ok {env : Env} {e : ClaimEntry} {locked : ℤ} (h : lockRest env e locked s = .ok t)
    (hnone : s.vestingConfig = none → locked ≤ 0) :
    ∃ durationLedgers, (0 < locked → entry s.totalLocked e.token + locked ≤ i128Max) ∧ t = { s with
      vesting := if 0 < locked
        then s.vesting.insert e.pair ⟨locked, 0, env.sequence, durationLedgers⟩ else s.vesting,
      totalLocked := if 0 < locked
        then s.totalLocked.insert e.token (entry s.totalLocked e.token + locked)
        else s.totalLocked } := by
  unfold lockRest at h
  split at h
  · next hconfig =>
    have hle := hnone hconfig
    rw [pure_eq_ok] at h
    refine ⟨0, fun hpos => by omega, ?_⟩
    rw [if_neg (by omega), if_neg (by omega), h]
  · next cfg hconfig =>
    split at h
    · next hpos =>
      simp only [bind_eq_ok, okOr_eq_ok, checkedAdd_eq_some, pure_eq_ok] at h
      obtain ⟨_, ⟨hfits, rfl⟩, rfl⟩ := h
      refine ⟨cfg.vestingDurationLedgers, fun _ => hfits.2, ?_⟩
      rw [if_pos hpos, if_pos hpos]
    · next hnot =>
      rw [pure_eq_ok] at h
      refine ⟨0, fun hpos => absurd hpos hnot, ?_⟩
      rw [if_neg hnot, if_neg hnot, h]

theorem settleClaim_ok {env : Env} {e : ClaimEntry} (h : settleClaim house env s e = .ok t)
    (hconfig : ∀ cfg, s.vestingConfig = some cfg → cfg.initialUnlockBps ≤ 10000)
    (hamount : 0 < e.amount) : ∃ liquid, Settled house s e liquid t := by
  simp only [settleClaim, bind_eq_ok, okOr_eq_ok, checkedSub_eq_some] at h
  obtain ⟨liquid, hliquid, _, ⟨hfits, rfl⟩, s₁, hlock, h⟩ := h
  obtain ⟨hnonneg, hle⟩ := liquidPart_ok hliquid hconfig (le_of_lt hamount)
  have hnone : s.vestingConfig = none → e.amount - liquid ≤ 0 := by
    intro hnone
    simp only [liquidPart, hnone, pure_eq_ok] at hliquid
    omega
  obtain ⟨durationLedgers, hbound, rfl⟩ := lockRest_ok hlock hnone
  refine ⟨liquid, hnonneg, hle, fun hpos => ⟨hfits.2, hbound hpos⟩, env.sequence, durationLedgers, ?_⟩
  split at h
  · next hpos =>
    obtain ⟨_, rfl⟩ := recordTransfer_eq_ok.mp h
    rw [if_pos hpos]
  · next hnot =>
    rw [pure_eq_ok] at h
    rw [if_neg hnot, List.append_nil, ← h]

theorem isClaimed_insert (e : ClaimEntry) {s' : State}
    (h : s'.claimed = s.claimed.insert e.pair true) :
    isClaimed recipient token s' = if (recipient, token) = e.pair then true
      else isClaimed recipient token s := by
  unfold isClaimed
  rw [h, lookup_insert_ite]
  split <;> rfl

theorem lockedIn_new {k : Address × Address} {schedule : VestingSchedule} {s' : State}
    (hnone : s.vesting.lookup k = none) (h : s'.vesting = s.vesting.insert k schedule) :
    lockedIn token s' = lockedIn token s + if k.2 = token then schedule.remaining else 0 := by
  unfold lockedIn
  rw [h, sumBy_insert, part_of_none hnone, sub_zero]

section Settling
variable {claims : Address → Address → List ℤ} {e : ClaimEntry} {liquid : ℤ}

/-- The claims with one entry added. -/
def withClaim (claims : Address → Address → List ℤ) (e : ClaimEntry) (recipient token : Address) :
    List ℤ :=
  claims recipient token ++ if e.pair = (recipient, token) then [e.amount] else []

theorem Settled.lockedIn_eq (h : Settled house s e liquid t)
    (hnone : s.vesting.lookup e.pair = none) (token : Address) :
    lockedIn token t = lockedIn token s + if e.token = token then e.amount - liquid else 0 := by
  obtain ⟨startLedger, durationLedgers, ht⟩ := h.after
  have hle := h.liquid_le
  by_cases hpos : 0 < e.amount - liquid
  · have hvesting : t.vesting = s.vesting.insert e.pair
        ⟨e.amount - liquid, 0, startLedger, durationLedgers⟩ := by
      rw [ht]
      exact if_pos hpos
    rw [lockedIn_new hnone hvesting]
    simp only [VestingSchedule.remaining, sub_zero, ClaimEntry.pair]
  · have hvesting : t.vesting = s.vesting := by
      rw [ht]
      exact if_neg hpos
    have hzero : e.amount - liquid = 0 := by omega
    simp only [lockedIn, hvesting, hzero, ite_self, add_zero]

theorem Settled.spare_le (h : Settled house s e liquid t) (hnone : s.vesting.lookup e.pair = none)
    (token : Address) :
    spare house ledger token s - (if e.token = token then e.amount else 0) ≤
      spare house ledger token t := by
  obtain ⟨startLedger, durationLedgers, ht⟩ := h.after
  have hliquid := h.liquid_nonneg
  have hle := h.liquid_le
  have hlocked := h.lockedIn_eq hnone token
  have hpaid : replay ledger s.transfers token house - (if e.token = token then liquid else 0) ≤
      replay ledger t.transfers token house := by
    rw [ht]
    dsimp only
    by_cases hpos : 0 < liquid
    · rw [if_pos hpos]
      exact replay_payment _ _ rfl (le_of_lt hpos)
    · rw [if_neg hpos, List.append_nil]
      split <;> omega
  unfold spare
  rw [hlocked]
  by_cases htoken : e.token = token
  · rw [if_pos htoken] at hpaid ⊢
    rw [if_pos htoken]
    omega
  · rw [if_neg htoken] at hpaid ⊢
    rw [if_neg htoken]
    omega

theorem Settled.isClaimed_eq (h : Settled house s e liquid t) (recipient token : Address) :
    isClaimed recipient token t =
      if (recipient, token) = e.pair then true else isClaimed recipient token s := by
  obtain ⟨_, _, ht⟩ := h.after
  exact isClaimed_insert e (by rw [ht])

theorem Settled.lookup_eq (h : Settled house s e liquid t) : ∃ startLedger durationLedgers,
    ∀ k, t.vesting.lookup k = if k = e.pair ∧ 0 < e.amount - liquid
      then some ⟨e.amount - liquid, 0, startLedger, durationLedgers⟩ else s.vesting.lookup k := by
  obtain ⟨startLedger, durationLedgers, ht⟩ := h.after
  refine ⟨startLedger, durationLedgers, fun k => ?_⟩
  rw [ht]
  dsimp only
  by_cases hpos : 0 < e.amount - liquid
  · rw [if_pos hpos, lookup_insert_ite]
    simp only [hpos, and_true]
  · simp only [hpos, and_false, if_false]

theorem Settled.totalLocked_eq (h : Settled house s e liquid t) (token : Address) :
    entry t.totalLocked token =
      entry s.totalLocked token + if e.token = token then e.amount - liquid else 0 := by
  obtain ⟨_, _, ht⟩ := h.after
  have hle := h.liquid_le
  rw [ht]
  dsimp only
  by_cases hpos : 0 < e.amount - liquid
  · rw [if_pos hpos, entry_insert_add]
  · have hzero : e.amount - liquid = 0 := by omega
    rw [if_neg hpos, hzero, ite_self, add_zero]

theorem Settled.paidTo_eq (h : Settled house s e liquid t) (recipient token : Address) :
    paidTo recipient token t.transfers =
      paidTo recipient token s.transfers + if e.pair = (recipient, token) then liquid else 0 := by
  obtain ⟨_, _, ht⟩ := h.after
  have hliquid := h.liquid_nonneg
  rw [ht]
  dsimp only
  by_cases hpos : 0 < liquid
  · rw [if_pos hpos, paidTo_snoc]
    congr 1
    simp only [ClaimEntry.pair, Prod.mk.injEq, true_or, true_and, and_comm]
  · have hzero : liquid = 0 := by omega
    rw [if_neg hpos, List.append_nil, hzero, ite_self, add_zero]

theorem Settled.stillLocked_eq (h : Settled house s e liquid t)
    (hnone : s.vesting.lookup e.pair = none) (recipient token : Address) :
    stillLocked recipient token t = if (recipient, token) = e.pair then e.amount - liquid
      else stillLocked recipient token s := by
  obtain ⟨startLedger, durationLedgers, hlookup⟩ := h.lookup_eq
  have hle := h.liquid_le
  rw [stillLocked, hlookup]
  by_cases hpair : (recipient, token) = e.pair
  · rw [if_pos hpair]
    by_cases hpos : 0 < e.amount - liquid
    · rw [if_pos ⟨hpair, hpos⟩, Option.map_some, Option.getD_some, VestingSchedule.remaining, sub_zero]
    · rw [if_neg fun hboth => hpos hboth.2, hpair, hnone, Option.map_none, Option.getD_none]
      omega
  · rw [if_neg hpair, if_neg fun hboth => hpair hboth.1, stillLocked]

theorem Vested.settle (hs : Vested house ledger claims s) (h : Settled house s e liquid t)
    (hnew : isClaimed e.recipient e.token s = false)
    (hdue : e.amount ≤ spare house ledger e.token s) :
    Vested house ledger (withClaim claims e) t := by
  obtain ⟨hnone, hclaims, hpaid⟩ := hs.unclaimed e.recipient e.token hnew
  obtain ⟨startLedger, durationLedgers, hlookup⟩ := h.lookup_eq
  have hunchanged : t.admin = s.admin ∧ t.vestingConfig = s.vestingConfig := by
    obtain ⟨_, _, ht⟩ := h.after
    rw [ht]
    exact ⟨rfl, rfl⟩
  refine {
    admin_isSome := by
      rw [hunchanged.1]
      exact hs.admin_isSome
    config_ok := by
      rw [hunchanged.2]
      exact hs.config_ok
    locked_eq := fun token => by rw [h.totalLocked_eq, h.lockedIn_eq hnone, hs.locked_eq]
    locked_le := fun token => ?_
    schedule_ok := fun k schedule hk => ?_
    covered := fun token => ?_
    unclaimed := fun recipient token hfree => ?_
    settled := fun recipient token hdone => ?_ }
  · rw [h.totalLocked_eq]
    have hle := h.liquid_le
    have hold := hs.locked_le token
    split
    · next htoken =>
      by_cases hpos : 0 < e.amount - liquid
      · rw [← htoken]
        exact (h.locked_le hpos).2
      · omega
    · omega
  · rw [hlookup] at hk
    split at hk
    · next hnewest =>
      cases hk
      exact ⟨le_refl 0, le_of_lt hnewest.2, (h.locked_le hnewest.2).1⟩
    · exact hs.schedule_ok k schedule hk
  · have hold := hs.covered token
    have hnext : spare house ledger token s - (if e.token = token then e.amount else 0) ≤
        spare house ledger token t := h.spare_le hnone token
    by_cases htoken : e.token = token
    · rw [if_pos htoken] at hnext
      rw [htoken] at hdue
      omega
    · rw [if_neg htoken] at hnext
      omega
  · rw [h.isClaimed_eq] at hfree
    split at hfree
    · cases hfree
    · next hother =>
      obtain ⟨hnone', hclaims', hpaid'⟩ := hs.unclaimed recipient token hfree
      refine ⟨?_, ?_, ?_⟩
      · rw [hlookup, if_neg fun h => hother h.1]
        exact hnone'
      · rw [withClaim, hclaims', if_neg (Ne.symm hother)]
        rfl
      · rw [h.paidTo_eq, hpaid', if_neg (Ne.symm hother), add_zero]
  · rw [h.isClaimed_eq] at hdone
    by_cases hpair : (recipient, token) = e.pair
    · obtain ⟨rfl, rfl⟩ : recipient = e.recipient ∧ token = e.token := Prod.ext_iff.mp hpair
      have hself : e.pair = (e.recipient, e.token) := rfl
      refine ⟨e.amount, ?_, ?_⟩
      · rw [withClaim, hclaims, if_pos hself]
        rfl
      · rw [h.paidTo_eq, hpaid, h.stillLocked_eq hnone, if_pos hself, if_pos hself.symm]
        omega
    · rw [if_neg hpair] at hdone
      obtain ⟨amount, hone, hsum⟩ := hs.settled recipient token hdone
      refine ⟨amount, ?_, ?_⟩
      · rw [withClaim, hone, if_neg (Ne.symm hpair), List.append_nil]
      · rw [h.paidTo_eq, if_neg (Ne.symm hpair), add_zero, h.stillLocked_eq hnone, if_neg hpair]
        exact hsum

theorem dueIn_nonneg {entries : List ClaimEntry} (hpos : ∀ e ∈ entries, 0 < e.amount) :
    0 ≤ dueIn token entries := by
  apply List.sum_nonneg
  intro v hv
  obtain ⟨e, he, rfl⟩ := List.mem_map.mp hv
  exact le_of_lt (hpos e (List.mem_of_mem_filter he))

theorem checkEntries_ok {host : Host} {entries : List ClaimEntry} {b b' : Batch}
    (h : entries.foldlM (checkEntry host s) b = .ok b') :
    (b.seen.Nodup → (b.seen ++ entries.map ClaimEntry.pair).Nodup) ∧
      (∀ e ∈ entries, 0 < e.amount ∧ isClaimed e.recipient e.token s = false) ∧
      ∀ token, entry b'.totals token = entry b.totals token + dueIn token entries := by
  induction entries generalizing b with
  | nil =>
    rw [List.foldlM_nil, pure_eq_ok] at h
    subst h
    exact ⟨by simp, by simp, by simp [dueIn]⟩
  | cons e rest ih =>
    simp only [List.foldlM_cons, checkEntry, bind_eq_ok, rejectIf_eq_ok, okOr_eq_ok,
      checkedAdd_eq_some, pure_eq_ok, not_le, Bool.not_eq_true] at h
    obtain ⟨_, ⟨_, hamount, _, hseen, _, hnew, _, ⟨_, rfl⟩, rfl⟩, h⟩ := h
    obtain ⟨hnodup, hrest, htotals⟩ := ih h
    refine ⟨fun hold => ?_, List.forall_mem_cons.mpr ⟨⟨hamount, hnew⟩, hrest⟩, fun token => ?_⟩
    · have hone : (b.seen ++ [e.pair]).Nodup := by
        rw [← List.concat_eq_append]
        exact hold.concat hseen
      rw [List.map_cons, List.append_cons]
      exact hnodup hone
    · rw [htotals token, dueIn_cons]
      dsimp only
      rw [entry_insert_add, add_assoc]

theorem Vested.settleAll {env : Env} {entries : List ClaimEntry}
    (hs : Vested house ledger claims s) (hnodup : (entries.map ClaimEntry.pair).Nodup)
    (hchecked : ∀ e ∈ entries, 0 < e.amount ∧ isClaimed e.recipient e.token s = false)
    (hdue : ∀ token, dueIn token entries ≤ spare house ledger token s)
    (h : entries.foldlM (settleClaim house env) s = .ok t) :
    Vested house ledger (fun recipient token =>
      claims recipient token ++ amountsOf recipient token entries) t := by
  induction entries generalizing s claims with
  | nil =>
    rw [List.foldlM_nil, pure_eq_ok] at h
    subst h
    simpa [amountsOf] using hs
  | cons e rest ih =>
    rw [List.foldlM_cons, bind_eq_ok] at h
    obtain ⟨s₁, hone, h⟩ := h
    obtain ⟨⟨hamount, hnew⟩, hrest⟩ := List.forall_mem_cons.mp hchecked
    obtain ⟨hother, hnodup⟩ := List.nodup_cons.mp hnodup
    obtain ⟨liquid, hsettled⟩ := settleClaim_ok hone hs.config_ok hamount
    have hfirst : e.amount ≤ spare house ledger e.token s := by
      have hall := hdue e.token
      have hnonneg : 0 ≤ dueIn e.token rest := dueIn_nonneg fun x hx => (hrest x hx).1
      rw [dueIn_cons, if_pos rfl] at hall
      omega
    have hs₁ := hs.settle hsettled hnew hfirst
    have hchecked₁ : ∀ x ∈ rest, 0 < x.amount ∧ isClaimed x.recipient x.token s₁ = false := by
      intro x hx
      obtain ⟨startLedger, durationLedgers, ht⟩ := hsettled.after
      have hne : (x.recipient, x.token) ≠ e.pair := fun heq =>
        hother (List.mem_map.mpr ⟨x, hx, heq⟩)
      rw [isClaimed_insert (s := s) e (by rw [ht]), if_neg hne]
      exact hrest x hx
    have hdue₁ : ∀ token, dueIn token rest ≤ spare house ledger token s₁ := by
      intro token
      have hall := hdue token
      have hle : spare house ledger token s - (if e.token = token then e.amount else 0) ≤
          spare house ledger token s₁ := hsettled.spare_le (hs.unclaimed _ _ hnew).1 token
      rw [dueIn_cons] at hall
      omega
    have hfinal := ih hs₁ hnodup hchecked₁ hdue₁ h
    have hclaims : (fun recipient token =>
        withClaim claims e recipient token ++ amountsOf recipient token rest) =
        fun recipient token => claims recipient token ++ amountsOf recipient token (e :: rest) := by
      funext recipient token
      rw [amountsOf_cons, withClaim, List.append_assoc]
    rw [hclaims] at hfinal
    exact hfinal

theorem claimBatch_vested {host : Host} {env : Env} {entries : List ClaimEntry} {proof : List Node}
    {proofFlags : List Bool} (hs : Vested house ledger claims s)
    (hreports : env.tokens.Reports ledger s.transfers house)
    (h : claimBatch host house env entries proof proofFlags s = .ok t) :
    Vested house ledger (fun recipient token =>
      claims recipient token ++ amountsOf recipient token entries) t := by
  simp only [claimBatch, bind_eq_ok] at h
  obtain ⟨_, _, _, _, batch, hchecks, _, _, _, havailable, h⟩ := h
  obtain ⟨hnodup, hchecked, htotals⟩ := checkEntries_ok hchecks
  refine hs.settleAll (hnodup List.nodup_nil) hchecked (fun token => ?_) h
  by_cases htoken : token ∈ entries.map ClaimEntry.token
  · have hone := forM_ok havailable token (List.mem_dedup.mpr htoken)
    simp only [ensureAvailable, bind_eq_ok, okOr_eq_ok, checkedSub_eq_some, rejectIf_eq_ok,
      not_lt] at hone
    obtain ⟨_, ⟨_, rfl⟩, hle⟩ := hone
    have hempty : entry (∅ : Balances Address) token = 0 := rfl
    rw [htotals token, hreports token, hs.locked_eq token] at hle
    dsimp only at hle
    rw [hempty, zero_add] at hle
    exact hle
  · rw [dueIn_of_notMem htoken]
    exact hs.covered token

theorem vestedAmount_le {schedule : VestingSchedule} {now : ℕ} {vested : ℤ}
    (h : vestedAmount schedule now = .ok vested) (htotal : 0 ≤ schedule.total) :
    vested ≤ schedule.total := by
  unfold vestedAmount at h
  dsimp only at h
  split at h
  · rw [pure_eq_ok] at h
    omega
  · next hearly =>
    rw [not_or, not_le] at hearly
    simp only [okOr_eq_ok, Option.bind_eq_some_iff, checkedMul_eq_some, checked_eq_some] at h
    obtain ⟨_, ⟨_, rfl⟩, _, rfl⟩ := h
    have helapsed : (0 : ℤ) ≤ saturatingSubU32 now schedule.startLedger := Int.natCast_nonneg _
    rw [Int.tdiv_eq_ediv_of_nonneg (Int.mul_nonneg htotal helapsed)]
    have hle : schedule.total * saturatingSubU32 now schedule.startLedger ≤
        schedule.total * schedule.durationLedgers :=
      Int.mul_le_mul_of_nonneg_left (by omega) htotal
    exact Int.ediv_le_of_le_mul (by omega) hle

theorem vestedAmount_end {schedule : VestingSchedule} {now : ℕ}
    (h : schedule.startLedger + schedule.durationLedgers ≤ now) :
    vestedAmount schedule now = .ok schedule.total := by
  unfold vestedAmount
  rw [if_pos (.inr (by unfold saturatingSubU32; omega))]
  rfl

theorem lockedIn_release {schedule : VestingSchedule} {amount : ℤ} {s' : State}
    (hlookup : s.vesting.lookup (recipient, token) = some schedule)
    (h : s'.vesting = s.vesting.insert (recipient, token)
      { schedule with released := schedule.released + amount }) (other : Address) :
    lockedIn other s' = lockedIn other s - if token = other then amount else 0 := by
  unfold lockedIn
  rw [h, sumBy_insert, part_of_lookup hlookup]
  dsimp only [VestingSchedule.remaining]
  split <;> omega

theorem Vested.isClaimed_of_lookup (hs : Vested house ledger claims s) {schedule : VestingSchedule}
    (hlookup : s.vesting.lookup (recipient, token) = some schedule) :
    isClaimed recipient token s = true := by
  cases hclaimed : isClaimed recipient token s with
  | true => rfl
  | false =>
    rw [(hs.unclaimed recipient token hclaimed).1] at hlookup
    cases hlookup

theorem Vested.released (hs : Vested house ledger claims s) {schedule : VestingSchedule} {amount : ℤ}
    (hlookup : s.vesting.lookup (recipient, token) = some schedule) (hamount : 0 < amount)
    (hle : schedule.released + amount ≤ schedule.total) :
    Vested house ledger claims { s with
      vesting := s.vesting.insert (recipient, token)
        { schedule with released := schedule.released + amount },
      totalLocked := s.totalLocked.insert token (entry s.totalLocked token - amount),
      transfers := s.transfers ++ [⟨.release, token, house, recipient, amount⟩] } := by
  obtain ⟨hnonneg, _, hmax⟩ := hs.schedule_ok _ _ hlookup
  let after : State := { s with
    vesting := s.vesting.insert (recipient, token)
      { schedule with released := schedule.released + amount },
    totalLocked := s.totalLocked.insert token (entry s.totalLocked token - amount),
    transfers := s.transfers ++ [⟨.release, token, house, recipient, amount⟩] }
  have hlocked : ∀ other, lockedIn other after =
      lockedIn other s - if token = other then amount else 0 := fun other =>
    lockedIn_release hlookup rfl other
  have hdone := hs.isClaimed_of_lookup hlookup
  have htotal : ∀ other, entry (s.totalLocked.insert token (entry s.totalLocked token - amount)) other =
      entry s.totalLocked other - if token = other then amount else 0 := by
    intro other
    rw [sub_eq_add_neg (entry s.totalLocked token), entry_insert_add]
    split <;> omega
  refine { hs with
    locked_eq := fun other => ?_
    locked_le := fun other => ?_
    schedule_ok := fun k other hk => ?_
    covered := fun other => ?_
    unclaimed := fun r other hfree => ?_
    settled := fun r other hsettled => ?_ }
  · dsimp only
    rw [htotal, hlocked, hs.locked_eq]
  · dsimp only
    rw [htotal]
    have hold := hs.locked_le other
    split <;> omega
  · rw [lookup_insert_ite] at hk
    split at hk
    · cases hk
      exact ⟨by dsimp only; omega, hle, hmax⟩
    · exact hs.schedule_ok k other hk
  · have hold := hs.covered other
    have hpaid : replay ledger s.transfers other house -
          (if token = other then amount else 0) ≤
        replay ledger (s.transfers ++ [⟨.release, token, house, recipient, amount⟩]) other
          house := replay_payment _ _ rfl (le_of_lt hamount)
    unfold spare at hold ⊢
    rw [hlocked]
    dsimp only
    omega
  · have hne : (r, other) ≠ (recipient, token) := by
      intro heq
      cases heq
      change isClaimed recipient token s = false at hfree
      rw [hdone] at hfree
      cases hfree
    obtain ⟨hnone, hclaims, hpaid⟩ := hs.unclaimed r other hfree
    refine ⟨?_, hclaims, ?_⟩
    · rw [lookup_insert_ite, if_neg hne]
      exact hnone
    · dsimp only
      rw [paidTo_snoc, hpaid, if_neg fun h => hne (by rw [← h.2.1, ← h.2.2]), add_zero]
  · obtain ⟨claimed, hone, hsum⟩ := hs.settled r other hsettled
    refine ⟨claimed, hone, ?_⟩
    unfold stillLocked at hsum ⊢
    dsimp only
    rw [paidTo_snoc, lookup_insert_ite]
    by_cases heq : (r, other) = (recipient, token)
    · cases heq
      rw [hlookup, Option.map_some, Option.getD_some] at hsum
      rw [if_pos rfl, if_pos ⟨.inr rfl, rfl, rfl⟩, Option.map_some, Option.getD_some]
      unfold VestingSchedule.remaining at hsum ⊢
      dsimp only
      omega
    · rw [if_neg heq, if_neg fun h => heq (by rw [← h.2.1, ← h.2.2]), add_zero]
      exact hsum

theorem release_vested {env : Env} {amount : ℤ} (hs : Vested house ledger claims s)
    (h : release house env recipient token s = .ok (amount, t)) :
    Vested house ledger claims t := by
  simp only [release, releasableAmount, bind_eq_ok, requireAuth_eq_ok, okOr_eq_ok, rejectIf_eq_ok,
    checkedAdd_eq_some, checkedSub_eq_some, pure_eq_ok, not_le, Prod.mk.injEq] at h
  obtain ⟨_, _, schedule, hlookup, _, ⟨vested, hvested, _, rfl⟩, _, hamount, _, ⟨_, rfl⟩, _, ⟨_, rfl⟩,
    s₁, hpay, rfl, rfl⟩ := h
  obtain ⟨_, rfl⟩ := recordTransfer_eq_ok.mp hpay
  obtain ⟨hnonneg, hle, _⟩ := hs.schedule_ok _ _ hlookup
  have hbound := vestedAmount_le hvested (by omega)
  exact hs.released hlookup hamount (by omega)

theorem release_end {env : Env} {schedule : VestingSchedule} {amount : ℤ}
    (hlookup : s.vesting.lookup (recipient, token) = some schedule)
    (hend : schedule.startLedger + schedule.durationLedgers ≤ env.sequence)
    (h : release house env recipient token s = .ok (amount, t)) :
    t.transfers = s.transfers ++ [⟨.release, token, house, recipient, schedule.remaining⟩] := by
  simp only [release, releasableAmount, hlookup, bind_eq_ok, okOr_eq_ok, checkedSub_eq_some,
    Option.some.injEq, pure_eq_ok, Prod.mk.injEq] at h
  obtain ⟨_, _, _, rfl, _, ⟨vested, hvested, _, rfl⟩, _, _, _, _, _, _, s₁, hpay, rfl, rfl⟩ := h
  rw [vestedAmount_end hend, Except.ok.injEq] at hvested
  obtain ⟨_, rfl⟩ := recordTransfer_eq_ok.mp hpay
  rw [VestingSchedule.remaining, hvested]

theorem release_end_succeeds {env : Env} {schedule : VestingSchedule}
    (hs : Vested house ledger claims s)
    (hlookup : s.vesting.lookup (recipient, token) = some schedule)
    (hremaining : 0 < schedule.remaining) (hauth : recipient ∈ env.auths)
    (hend : schedule.startLedger + schedule.durationLedgers ≤ env.sequence)
    (hpays : env.tokens.Pays ledger s.transfers token house) :
    release house env recipient token s = .ok (schedule.remaining, { s with
      vesting := s.vesting.insert (recipient, token) { schedule with released := schedule.total },
      totalLocked := s.totalLocked.insert token (entry s.totalLocked token - schedule.remaining),
      transfers := s.transfers ++
        [⟨.release, token, house, recipient, schedule.remaining⟩] }) := by
  obtain ⟨hreleased, hle, hmax⟩ := hs.schedule_ok _ _ hlookup
  have hlocked : schedule.remaining ≤ lockedIn token s := by
    have hpart := part_le_sumBy (m := s.vesting) (k := (recipient, token))
      (f := fun k schedule => if k.2 = token then schedule.remaining else 0) (fun k other hk => by
        obtain ⟨_, hother, _⟩ := hs.schedule_ok k other hk
        dsimp only [VestingSchedule.remaining]
        split <;> omega)
    rw [part_of_lookup hlookup, if_pos rfl] at hpart
    exact hpart
  have hcovered : schedule.remaining ≤ replay ledger s.transfers token house := by
    have hspare := hs.covered token
    unfold spare at hspare
    omega
  have haccepts := hpays ⟨.release, token, house, recipient, schedule.remaining⟩ rfl rfl
    (le_of_lt hremaining) hcovered
  have htotal := hs.locked_eq token
  have hbound := hs.locked_le token
  unfold VestingSchedule.remaining at hremaining hlocked haccepts ⊢
  unfold i128Max at hmax hbound
  have hamount : checkedSub schedule.total schedule.released =
      some (schedule.total - schedule.released) :=
    checkedSub_eq_some.mpr ⟨⟨by omega, by omega⟩, rfl⟩
  have hsum : checkedAdd schedule.released (schedule.total - schedule.released) =
      some schedule.total :=
    checkedAdd_eq_some.mpr ⟨⟨by omega, by omega⟩, by omega⟩
  have hrest : checkedSub (entry s.totalLocked token) (schedule.total - schedule.released) =
      some (entry s.totalLocked token - (schedule.total - schedule.released)) :=
    checkedSub_eq_some.mpr ⟨⟨by omega, by omega⟩, rfl⟩
  simp only [release, requireAuth, trapUnless, hauth, if_true, ok_bind, hlookup, okOr,
    releasableAmount, vestedAmount_end hend, hamount, rejectIf_neg (not_le.mpr hremaining), hsum,
    hrest, callTransfer, recordTransfer, haccepts]
  rfl

theorem fund_vested {env : Env} {source : Address} {amount : ℤ} (hs : Vested house ledger claims s)
    (houtside : house ∉ env.auths) (hnonneg : env.tokens.RejectsNegative token)
    (h : fund house env source token amount s = .ok t) : Vested house ledger claims t := by
  simp only [fund, bind_eq_ok, requireAuth_eq_ok] at h
  obtain ⟨_, hauth, hpay⟩ := h
  obtain ⟨haccepts, rfl⟩ := recordTransfer_eq_ok.mp hpay
  have hne : source ≠ house := by
    rintro rfl
    exact houtside hauth
  have hamount : 0 ≤ amount := hnonneg _ _ rfl haccepts
  refine { hs with
    covered := fun other => ?_
    unclaimed := fun recipient other hfree => ?_
    settled := fun recipient other hdone => ?_ }
  · have hold := hs.covered other
    unfold spare lockedIn at hold ⊢
    rw [replay_eq_gain] at hold ⊢
    dsimp only
    rw [gain_append, gain_incoming_ite _ _ _ hne]
    split <;> omega
  · obtain ⟨hnone, hclaims, hpaid⟩ := hs.unclaimed recipient other hfree
    refine ⟨hnone, hclaims, ?_⟩
    dsimp only
    rw [paidTo_snoc, if_neg (by simp), add_zero]
    exact hpaid
  · obtain ⟨claimed, hone, hsum⟩ := hs.settled recipient other hdone
    refine ⟨claimed, hone, ?_⟩
    dsimp only
    rw [paidTo_snoc, if_neg (by simp), add_zero]
    exact hsum

end Settling

end Records

theorem claimsOf_snoc {house : Address} (recipient token : Address)
    (past : List (Entry State (Invocation house VestingCall)))
    (e : Entry State (Invocation house VestingCall)) :
    claimsOf recipient token (past ++ [e]) = claimsOf recipient token past ++
      match e.invocation.call with
      | .claimBatch entries _ _ => amountsOf recipient token entries
      | _ => [] := by
  simp only [claimsOf, List.flatMap_append, List.flatMap_singleton]

theorem execVesting_release {host : Host} {house recipient token : Address}
    {j : Invocation house VestingCall} {s t : State} (hj : j.call = .release recipient token)
    (h : execVesting host j s = .ok t) :
    ∃ result, release house j.toEnv recipient token s = .ok result ∧ result.2 = t := by
  unfold execVesting at h
  rw [hj] at h
  dsimp only at h
  cases hrelease : release house j.toEnv recipient token s with
  | error e =>
    rw [hrelease] at h
    cases h
  | ok result =>
    rw [hrelease] at h
    cases h
    exact ⟨result, rfl, rfl⟩

theorem execVesting_vested {host : Host} {house : Address} {ledger : Ledger}
    {i : Invocation house VestingCall} {s t : State}
    {past : List (Entry State (Invocation house VestingCall))}
    (hs : Vested house ledger (fun recipient token => claimsOf recipient token past) s)
    (hreports : i.tokens.Reports ledger s.transfers house)
    (hnonneg : ∀ token, i.tokens.RejectsNegative token) (h : execVesting host i s = .ok t) :
    Vested house ledger (fun recipient token => claimsOf recipient token (past ++ [⟨s, i, t⟩])) t := by
  have hsnoc : (fun recipient token => claimsOf recipient token (past ++ [⟨s, i, t⟩])) =
      fun recipient token => claimsOf recipient token past ++
        match i.call with
        | .claimBatch entries _ _ => amountsOf recipient token entries
        | _ => [] := by
    funext recipient token
    exact claimsOf_snoc recipient token past ⟨s, i, t⟩
  rw [hsnoc]
  have hok := h
  unfold execVesting at h
  cases hcall : i.call with
  | initializeAirdrop admin claimDeadline vesting =>
    simp only [hcall, initializeAirdrop, bind_eq_ok, rejectIf_eq_ok] at h
    obtain ⟨_, hnone, _⟩ := h
    exact absurd hs.admin_isSome hnone
  | fund source token amount =>
    rw [hcall] at h
    simpa using fund_vested hs i.outside (hnonneg token) h
  | claimBatch entries proof proofFlags =>
    rw [hcall] at h
    exact claimBatch_vested hs hreports h
  | release recipient token =>
    obtain ⟨result, hrelease, rfl⟩ := execVesting_release hcall hok
    simpa using release_vested hs hrelease

theorem initializeAirdrop_vested {house admin : Address} {env : Env} {claimDeadline : ℕ}
    {vesting : Option VestingConfig} {root : Option Node} {ledger : Ledger} {s : State}
    (hfunded : ∀ token, 0 ≤ ledger token house)
    (h : initializeAirdrop env admin claimDeadline vesting { State.empty with merkleRoot := root } =
      .ok s) : Vested house ledger (fun _ _ => []) s := by
  simp only [initializeAirdrop, bind_eq_ok, rejectIf_eq_ok, pure_eq_ok] at h
  obtain ⟨_, _, _, _, _, hconfig, rfl⟩ := h
  refine {
    admin_isSome := rfl
    config_ok := fun cfg hcfg => ?_
    locked_eq := fun token => rfl
    locked_le := fun token => (by decide : (0 : ℤ) ≤ i128Max)
    schedule_ok := fun k schedule hk => by simp [State.empty] at hk
    covered := fun token => ?_
    unclaimed := fun recipient token _ => ⟨rfl, rfl, rfl⟩
    settled := fun recipient token hdone => by simp [isClaimed, State.empty] at hdone }
  · have hsome : vesting = some cfg := by
      cases vesting with
      | none => exact absurd hcfg (by simp [State.empty])
      | some other => simpa using hcfg
    by_contra hover
    exact hconfig ⟨cfg, hsome, .inl (by unfold bpsDenominator; omega)⟩
  · have hnone : lockedIn token State.empty = 0 := rfl
    change 0 ≤ ledger token house - lockedIn token State.empty
    rw [hnone, sub_zero]
    exact hfunded token

/-- In every run of fundings, batches and releases with honest tokens: `TotalLocked` is what the
    schedules lock, each schedule has released part of its total, the contract holds what is locked,
    every recipient's claim of a token is settled at most once and is what was paid for it with what
    is still locked, and after the end of a schedule a release pays all that remains. -/
theorem vesting_custody (host : Host) (house admin : Address) (claimDeadline : ℕ)
    (vesting : Option VestingConfig) (root : Option Node) (i₀ : Invocation house VestingCall)
    (s : State) (hcall : i₀.call = .initializeAirdrop admin claimDeadline vesting)
    (hinit : execVesting host i₀ { State.empty with merkleRoot := root } = .ok s)
    (is : List (Invocation house VestingCall)) (ledger : Ledger)
    (hfunded : ∀ token, 0 ≤ ledger token house)
    (hreports : Along (execVesting host)
      (fun s i => i.tokens.Reports ledger s.transfers house) s is)
    (hnonneg : ∀ i ∈ is, ∀ token, i.tokens.RejectsNegative token) :
    (∀ token, entry (runVesting host s is).totalLocked token = lockedIn token (runVesting host s is)) ∧
    (∀ k schedule, (runVesting host s is).vesting.lookup k = some schedule →
      0 ≤ schedule.released ∧ schedule.released ≤ schedule.total) ∧
    (∀ token, entry (runVesting host s is).totalLocked token ≤
      replay ledger (runVesting host s is).transfers token house) ∧
    (∀ recipient token,
      (claimsOf recipient token (history (execVesting host) s is)).length ≤ 1 ∧
      paidTo recipient token (runVesting host s is).transfers +
          stillLocked recipient token (runVesting host s is) =
        (claimsOf recipient token (history (execVesting host) s is)).sum) ∧
    ∀ recipient token schedule,
      (runVesting host s is).vesting.lookup (recipient, token) = some schedule →
      0 < schedule.remaining → ∀ j : Invocation house VestingCall,
      j.call = .release recipient token →
      schedule.startLedger + schedule.durationLedgers ≤ j.sequence →
      (∀ t, execVesting host j (runVesting host s is) = .ok t →
        t.transfers = (runVesting host s is).transfers ++
          [⟨.release, token, house, recipient, schedule.remaining⟩]) ∧
      (recipient ∈ j.auths →
        j.tokens.Pays ledger (runVesting host s is).transfers token house →
        ∃ t, execVesting host j (runVesting host s is) = .ok t) := by
  have hstart : Vested house ledger (fun recipient token => @claimsOf house recipient token []) s := by
    unfold execVesting at hinit
    rw [hcall] at hinit
    exact initializeAirdrop_vested hfunded hinit
  have hrun := history_invariant_along
    (I := fun past s => Vested house ledger (fun recipient token => claimsOf recipient token past) s)
    (fun _ _ _ _ hs hi hok => execVesting_vested hs hi.1 hi.2 hok) hstart
    (hreports.and_forall hnonneg)
  change Vested house ledger _ (runVesting host s is) at hrun
  refine ⟨hrun.locked_eq, fun k schedule hk => ?_, fun token => ?_, fun recipient token => ?_, ?_⟩
  · obtain ⟨hreleased, hle, _⟩ := hrun.schedule_ok k schedule hk
    exact ⟨hreleased, hle⟩
  · have hcovered := hrun.covered token
    unfold spare at hcovered
    rw [hrun.locked_eq]
    omega
  · cases hclaimed : isClaimed recipient token (runVesting host s is) with
    | false =>
      obtain ⟨hnone, hclaims, hpaid⟩ := hrun.unclaimed recipient token hclaimed
      rw [hclaims, hpaid, stillLocked, hnone]
      exact ⟨by decide, rfl⟩
    | true =>
      obtain ⟨amount, hone, hsum⟩ := hrun.settled recipient token hclaimed
      rw [hone, hsum, List.sum_singleton]
      exact ⟨le_refl 1, rfl⟩
  · intro recipient token schedule hlookup hremaining j hj hend
    refine ⟨fun t hok => ?_, fun hauth hpays => ?_⟩
    · obtain ⟨result, hrelease, rfl⟩ := execVesting_release hj hok
      exact release_end hlookup hend hrelease
    · have hrelease := release_end_succeeds hrun hlookup hremaining hauth hend hpays
      unfold execVesting
      rw [hj]
      dsimp only
      rw [hrelease]
      exact ⟨_, rfl⟩

def demoHouse : Address := ⟨70⟩
def demoAdmin : Address := ⟨71⟩
def demoToken : Address := ⟨72⟩
def demoAlice : Address := ⟨73⟩

def demoHost : Host where
  sha256 _ := 0
  computeLeaf _ _ amount := BitVec.ofInt 256 amount
  computeRoundLeaf _ amount := BitVec.ofInt 256 amount
  verifyProof := verifyMerkleProof fun _ => 0
  accountPublicKey _ := some 0
  ed25519Verify _ _ _ := true

def demoLedger : Ledger := fun _ holder => if holder = demoHouse then 0 else 1000

/-- A call with honest tokens after the transfers of `log`. -/
def demoCall {κ : Type} (sequence : ℕ) (log : List (Transfer Purpose)) (call : κ) :
    Invocation demoHouse κ where
  sequence := sequence
  auths := [demoAdmin, demoAlice]
  tokens := { honestReplies demoLedger with balance := replay demoLedger log }
  call := call
  outside := by decide

def demoFunding : Transfer Purpose := ⟨.funding, demoToken, demoAdmin, demoHouse, 1000⟩

/-- Half of a claim of 100 vests over 10 ledgers; after 5 of them a quarter is released. -/
def demoVesting : List (Invocation demoHouse VestingCall) :=
  [demoCall 2 [] (.fund demoAdmin demoToken 1000),
    demoCall 3 [demoFunding] (.claimBatch [⟨demoAlice, demoToken, 100⟩] [] []),
    demoCall 8 [demoFunding, ⟨.claim, demoToken, demoHouse, demoAlice, 50⟩]
      (.release demoAlice demoToken)]

theorem vesting_custody_demo :
    let start := runVesting demoHost { State.empty with merkleRoot := some (BitVec.ofInt 256 100) }
      [demoCall 1 [] (.initializeAirdrop demoAdmin 20 (some ⟨5000, 10⟩))]
    entry (runVesting demoHost start demoVesting).totalLocked demoToken = 25 ∧
      paidTo demoAlice demoToken (runVesting demoHost start demoVesting).transfers = 75 ∧
      25 ≤ replay demoLedger (runVesting demoHost start demoVesting).transfers demoToken demoHouse ∧
      ∃ t, execVesting demoHost (demoCall 13 [] (.release demoAlice demoToken))
        (runVesting demoHost start demoVesting) = .ok t := by
  intro start
  have hcustody := vesting_custody demoHost demoHouse demoAdmin 20 (some ⟨5000, 10⟩)
    (some (BitVec.ofInt 256 100))
    (demoCall 1 [] (.initializeAirdrop demoAdmin 20 (some ⟨5000, 10⟩))) start rfl rfl demoVesting
    demoLedger (fun _ => le_refl 0) ⟨fun _ => rfl, fun _ => rfl, fun _ => rfl, trivial⟩
    (by
      simp only [demoVesting, List.mem_cons, List.not_mem_nil, or_false, forall_eq_or_imp, forall_eq]
      exact ⟨honestReplies_rejectsNegative demoLedger, honestReplies_rejectsNegative demoLedger,
        honestReplies_rejectsNegative demoLedger⟩)
  have hlocked : entry (runVesting demoHost start demoVesting).totalLocked demoToken = 25 := by
    decide +kernel
  have hlookup : (runVesting demoHost start demoVesting).vesting.lookup (demoAlice, demoToken) =
      some ⟨50, 25, 3, 10⟩ := by
    decide +kernel
  obtain ⟨_, _, hheld, _, hrelease⟩ := hcustody
  have hfinal := (hrelease demoAlice demoToken ⟨50, 25, 3, 10⟩ hlookup (by decide)
    (demoCall 13 [] (.release demoAlice demoToken)) rfl (by decide)).2 (by decide)
    (honestReplies_pays _ _ _ _)
  refine ⟨hlocked, by decide +kernel, ?_, hfinal⟩
  rw [← hlocked]
  exact hheld demoToken

end SorobanKit.Airdrop
