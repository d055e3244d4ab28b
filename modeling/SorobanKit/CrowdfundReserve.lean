import SorobanKit.CrowdfundMilestones
import SorobanKit.CrowdfundOutcome

set_option autoImplicit false

/-!
# Milestone and token funds in the pool of the pledges

Until the campaign has succeeded the contract has to hold the pledges. What it holds beyond them is
`spare`; a milestone that takes more than that, before the campaign succeeded, is paid from the
pledges. Pledges in another token raise `TotalPledged` and can be paid to nobody.
-/
namespace SorobanKit.Crowdfund
open HostBalances HostInteger HostInvocation HostRuns HostTransfers

/-- No milestone was released and no claim paid. -/
def Intact (log : List (Transfer Purpose)) : Prop :=
  ∀ x ∈ log, x.purpose ≠ .milestone ∧ x.purpose ≠ .claim

instance (log : List (Transfer Purpose)) : Decidable (Intact log) :=
  inferInstanceAs (Decidable (∀ x ∈ log, _))

/-- The goal is met, whatever the pledges consist of. -/
def GoalMet (s : State) : Prop := ∃ goal ∈ s.goal, ∃ total ∈ s.totalPledged, goal ≤ total

instance (s : State) : Decidable (GoalMet s) :=
  inferInstanceAs (Decidable (∃ goal ∈ s.goal, ∃ total ∈ s.totalPledged, goal ≤ total))

/-- The campaign can no longer fail: it ended, uncancelled, with the goal met. -/
def Succeeded (s : State) (now : ℕ) : Prop :=
  s.cancelled = some false ∧ (∃ deadline ∈ s.deadline, deadline < now) ∧ GoalMet s

instance (s : State) (now : ℕ) : Decidable (Succeeded s now) := inferInstanceAs (Decidable (_ ∧ _))

/-- The campaign ended with the goal missed. -/
def Missed (s : State) (now : ℕ) : Prop :=
  (∃ deadline ∈ s.deadline, deadline < now) ∧ ¬ GoalMet s

instance (s : State) (now : ℕ) : Decidable (Missed s now) := inferInstanceAs (Decidable (_ ∧ _))

/-- What the contract holds of the main token beyond the pledges. -/
def spare (token house : Address) (s : State) : ℤ :=
  gain token house s.transfers - total s.pledges

/-- The calls that use the pool in a way the pledges, or the claim, do not stand: a pledge that
    nothing can pay back; cancelling while more than the pledges is held; a payment to the creator
    from the pledges of a campaign that has not succeeded; a refund of a campaign that has. -/
def Mishandles {house : Address} (token : Address) (c : Campaign) (i : CampaignInvocation house) :
    Prop :=
  match i.call with
  | .pledgeWithToken _ other _ => other ≠ token ∨ c.cancelled = some true
  | .releaseMilestone milestoneId => ¬ Succeeded c.toState i.sequence ∧
      ∃ m ∈ (c.milestones.getD []).find? (fun m => m.milestoneId = milestoneId),
        spare token house c.toState < m.amount
  | .funding .cancelCampaign => 0 < spare token house c.toState
  | .funding .claim => c.cancelled = some true
  | .funding (.refund _) => c.cancelled = some false ∧ GoalMet c.toState ∧ Intact c.transfers
  | _ => False

instance {house : Address} (token : Address) (c : Campaign) (i : CampaignInvocation house) :
    Decidable (Mishandles token c i) := by
  unfold Mishandles
  split <;> infer_instance

/-- Everything paid to pledgers after the end and to the creator. -/
def paidOut (log : List (Transfer Purpose)) : ℤ :=
  sumOf (fun x => x.purpose = .refund ∨ x.purpose = .milestone ∨ x.purpose = .claim) log

theorem paidOut_snoc (log : List (Transfer Purpose)) (x : Transfer Purpose) :
    paidOut (log ++ [x]) = paidOut log +
      if x.purpose = .refund ∨ x.purpose = .milestone ∨ x.purpose = .claim then x.amount else 0 := by
  unfold paidOut
  rw [sumOf_append, sumOf_cons, sumOf_nil, add_zero]
  simp only [decide_eq_true_eq]

theorem paidOut_of_intact {log : List (Transfer Purpose)} (h : Intact log) :
    paidOut log = refunded log := by
  apply sumOf_congr
  intro x hx
  have hx := h x hx
  simp [hx.1, hx.2]

theorem Intact.of_append {xs ys : List (Transfer Purpose)} (h : Intact (xs ++ ys)) : Intact xs :=
  fun x hx => h x (List.mem_append_left ys hx)

structure Reserved (house creator token : Address) (goal : ℤ) (now : ℕ) (s : State) : Prop where
  creator_eq : s.creator = some creator
  token_eq : s.token = some token
  goal_eq : s.goal = some goal
  deadline_isSome : s.deadline.isSome
  cancelled_isSome : s.cancelled.isSome
  house_none : entry s.pledges house = 0
  pledge_pos : ∀ p v, s.pledges.lookup p = some v → 0 < v
  foreign : ∀ other, other ≠ token → gain other house s.transfers = 0
  total_eq : s.totalPledged = some (gain token house s.transfers + paidOut s.transfers)
  held_nonneg : 0 ≤ gain token house s.transfers
  covered : Succeeded s now ∨ 0 ≤ spare token house s
  cancelled_spare : s.cancelled = some true → spare token house s = 0
  unrefunded : s.cancelled = some false → Intact s.transfers →
    refunded s.transfers = 0 ∨ Missed s now

section Steps
variable {house creator token : Address} {goal : ℤ} {now : ℕ} {ledger : Ledger} {s t : State}

theorem Succeeded.later (h : Succeeded s now) {later : ℕ} (hle : now ≤ later) :
    Succeeded s later := by
  obtain ⟨hgoing, ⟨deadline, hdeadline, hlate⟩, hmet⟩ := h
  exact ⟨hgoing, ⟨deadline, hdeadline, by omega⟩, hmet⟩

theorem Missed.later (h : Missed s now) {later : ℕ} (hle : now ≤ later) : Missed s later := by
  obtain ⟨⟨deadline, hdeadline, hlate⟩, hbelow⟩ := h
  exact ⟨⟨deadline, hdeadline, by omega⟩, hbelow⟩

theorem Reserved.later (hs : Reserved house creator token goal now s) {later : ℕ}
    (hle : now ≤ later) : Reserved house creator token goal later s :=
  { hs with
    covered := hs.covered.imp_left fun h => h.later hle
    unrefunded := fun hgoing hintact =>
      (hs.unrefunded hgoing hintact).imp_right fun h => h.later hle }

theorem not_ended {deadline : ℕ} (hdeadline : s.deadline = some deadline) (hopen : now ≤ deadline) :
    ¬ ∃ other ∈ s.deadline, other < now := by
  rintro ⟨other, hother, hlate⟩
  rw [Option.mem_def, hdeadline] at hother
  cases hother
  omega

theorem Reserved.covered_open (hs : Reserved house creator token goal now s) {deadline : ℕ}
    (hdeadline : s.deadline = some deadline) (hopen : now ≤ deadline) :
    0 ≤ spare token house s :=
  hs.covered.resolve_left fun h => not_ended hdeadline hopen h.2.1

theorem Reserved.unrefunded_open (hs : Reserved house creator token goal now s) {deadline : ℕ}
    (hdeadline : s.deadline = some deadline) (hopen : now ≤ deadline)
    (hgoing : s.cancelled = some false) (hintact : Intact s.transfers) : refunded s.transfers = 0 :=
  (hs.unrefunded hgoing hintact).resolve_right fun h => not_ended hdeadline hopen h.1

theorem Reserved.token_unique (hs : Reserved house creator token goal now s) {other : Address}
    (h : s.token = some other) : other = token := by
  rw [hs.token_eq] at h
  exact (Option.some.inj h).symm

theorem Reserved.total_unique (hs : Reserved house creator token goal now s) {totalPledged : ℤ}
    (h : s.totalPledged = some totalPledged) :
    totalPledged = gain token house s.transfers + paidOut s.transfers := by
  rw [hs.total_eq] at h
  exact (Option.some.inj h).symm

theorem Reserved.foreign_snoc (hs : Reserved house creator token goal now s) {other : Address}
    (hother : other ≠ token) {x : Transfer Purpose} (hx : x.token = token) :
    gain other house (s.transfers ++ [x]) = 0 := by
  have hne : x.token ≠ other := fun h => hother (h.symm.trans hx)
  rw [gain_append, hs.foreign other hother, gain_other_token hne, add_zero]

/-- A pledge comes in, with an entry of no more than its amount or in a record of its own. -/
theorem Reserved.received (hs : Reserved house creator token goal now s) {purpose : Purpose}
    (hpurpose : purpose = .pledge ∨ purpose = .tokenPledge) {pledger : Address} {amount : ℤ}
    (hamount : 0 < amount) (hne : pledger ≠ house) {deadline : ℕ} (hdeadline : s.deadline = some deadline)
    (hopen : now ≤ deadline) (hgoing : s.cancelled = some false)
    {pledges : Balances Address} (hhouse : entry pledges house = 0)
    (hpos : ∀ p v, pledges.lookup p = some v → 0 < v)
    (hle : total pledges ≤ total s.pledges + amount)
    (pledgeTier : Finmap (fun _ : Address => Option ℕ))
    (tierBackerCount : Finmap (fun _ : ℕ => ℕ)) :
    Reserved house creator token goal now { s with
      pledgeTier := pledgeTier, tierBackerCount := tierBackerCount, pledges := pledges,
      totalPledged := some (gain token house s.transfers + paidOut s.transfers + amount),
      transfers := s.transfers ++ [⟨purpose, token, pledger, house, amount⟩] } := by
  have hcovered := hs.covered_open hdeadline hopen
  have hpaid := paidOut_snoc s.transfers ⟨purpose, token, pledger, house, amount⟩
  rw [if_neg (by rcases hpurpose with rfl | rfl <;> simp), add_zero] at hpaid
  have hrefunded := refunded_snoc s.transfers ⟨purpose, token, pledger, house, amount⟩
  rw [if_neg (by rcases hpurpose with rfl | rfl <;> simp), add_zero] at hrefunded
  have hgain : gain token house (s.transfers ++ [⟨purpose, token, pledger, house, amount⟩]) =
      gain token house s.transfers + amount := by
    rw [gain_append, gain_incoming _ _ hne]
  refine { hs with
    house_none := hhouse
    pledge_pos := hpos
    foreign := fun other hother => ?_
    total_eq := ?_
    held_nonneg := ?_
    covered := .inr ?_
    cancelled_spare := fun hcancelled => ?_
    unrefunded := fun _ hintact => .inl ?_ }
  · exact hs.foreign_snoc hother rfl
  · dsimp only
    rw [hgain, hpaid]
    congr 1
    omega
  · have hheld := hs.held_nonneg
    dsimp only
    rw [hgain]
    omega
  · unfold spare at hcovered ⊢
    dsimp only
    rw [hgain]
    omega
  · dsimp only at hcancelled
    rw [hgoing] at hcancelled
    cases hcancelled
  · dsimp only
    rw [hrefunded]
    exact hs.unrefunded_open hdeadline hopen hgoing hintact.of_append

/-- A pledge goes back to its pledger. -/
theorem Reserved.returned (hs : Reserved house creator token goal now s) {purpose : Purpose}
    {pledger : Address} (hpledge : 0 < entry s.pledges pledger)
    (hheld : entry s.pledges pledger ≤ gain token house s.transfers) {totalPledged : ℤ}
    (hpurpose : (purpose = .withdrawal ∧
        totalPledged = gain token house s.transfers + paidOut s.transfers - entry s.pledges pledger ∧
        ∃ deadline, s.deadline = some deadline ∧ now ≤ deadline) ∨
      (purpose = .refund ∧ totalPledged = gain token house s.transfers + paidOut s.transfers ∧
        (s.cancelled = some false → Intact s.transfers → Missed s now))) :
    Reserved house creator token goal now { s with
      pledges := s.pledges.erase pledger,
      totalPledged := some totalPledged,
      transfers := s.transfers ++
        [⟨purpose, token, house, pledger, entry s.pledges pledger⟩] } := by
  have hne : pledger ≠ house := by
    rintro rfl
    have hnone := hs.house_none
    omega
  have hpaid := paidOut_snoc s.transfers ⟨purpose, token, house, pledger, entry s.pledges pledger⟩
  have hrefunded := refunded_snoc s.transfers
    ⟨purpose, token, house, pledger, entry s.pledges pledger⟩
  have hgain : gain token house (s.transfers ++
      [⟨purpose, token, house, pledger, entry s.pledges pledger⟩]) =
      gain token house s.transfers - entry s.pledges pledger := by
    rw [gain_append, gain_outgoing _ _ hne]
    omega
  have hspare : spare token house { s with
      pledges := s.pledges.erase pledger,
      totalPledged := some totalPledged,
      transfers := s.transfers ++
        [⟨purpose, token, house, pledger, entry s.pledges pledger⟩] } = spare token house s := by
    unfold spare
    dsimp only
    rw [hgain, total_erase]
    omega
  refine { hs with
    house_none := (entry_erase_of_ne _ (Ne.symm hne)).trans hs.house_none
    pledge_pos := fun p v hv => ?_
    foreign := fun other hother => ?_
    total_eq := ?_
    held_nonneg := ?_
    covered := ?_
    cancelled_spare := fun hcancelled => hspare.trans (hs.cancelled_spare hcancelled)
    unrefunded := fun hgoing hintact => ?_ }
  · exact hs.pledge_pos p v (of_lookup_erase hv).2
  · exact hs.foreign_snoc hother rfl
  · dsimp only at hpaid ⊢
    rw [hgain, hpaid]
    congr 1
    rcases hpurpose with ⟨rfl, rfl, _⟩ | ⟨rfl, rfl, _⟩
    · rw [if_neg (by simp)]
      omega
    · rw [if_pos (.inl rfl)]
      omega
  · dsimp only
    rw [hgain]
    omega
  · rw [hspare]
    rcases hs.covered with hsucceeded | hcovered
    · rcases hpurpose with ⟨_, _, deadline, hdeadline, hopen⟩ | ⟨_, rfl, _⟩
      · exact absurd hsucceeded.2.1 (not_ended hdeadline hopen)
      · refine .inl ⟨hsucceeded.1, hsucceeded.2.1, ?_⟩
        obtain ⟨goal', hgoal, total', htotal, hle⟩ := hsucceeded.2.2
        obtain rfl := hs.total_unique htotal
        exact ⟨goal', hgoal, _, rfl, hle⟩
    · exact .inr hcovered
  · rcases hpurpose with ⟨rfl, _, deadline, hdeadline, hopen⟩ | ⟨rfl, rfl, hmissed⟩
    · left
      dsimp only
      rw [hrefunded, if_neg (by simp), add_zero]
      exact hs.unrefunded_open hdeadline hopen hgoing hintact.of_append
    · right
      obtain ⟨hended, hbelow⟩ := hmissed hgoing hintact.of_append
      refine ⟨hended, fun hmet => hbelow ?_⟩
      rw [GoalMet, hs.total_eq]
      exact hmet

/-- The creator is paid, from a campaign that succeeded or from what is spare. -/
theorem Reserved.paid (hs : Reserved house creator token goal now s) (hcreator : creator ≠ house)
    {purpose : Purpose} (hpurpose : purpose = .milestone ∨ purpose = .claim) {amount : ℤ}
    (hnonneg : 0 ≤ amount) (hheld : amount ≤ gain token house s.transfers)
    (hallowed : Succeeded s now ∨ amount ≤ spare token house s)
    (claimed : Option Bool) :
    Reserved house creator token goal now { s with
      claimed := claimed,
      transfers := s.transfers ++ [⟨purpose, token, house, creator, amount⟩] } := by
  have hpaid := paidOut_snoc s.transfers ⟨purpose, token, house, creator, amount⟩
  rw [if_pos (by rcases hpurpose with rfl | rfl <;> simp)] at hpaid
  have hgain : gain token house (s.transfers ++ [⟨purpose, token, house, creator, amount⟩]) =
      gain token house s.transfers - amount := by
    rw [gain_append, gain_outgoing _ _ hcreator]
    omega
  refine { hs with
    foreign := fun other hother => ?_
    total_eq := ?_
    held_nonneg := ?_
    covered := ?_
    cancelled_spare := fun hcancelled => ?_
    unrefunded := fun _ hintact => ?_ }
  · exact hs.foreign_snoc hother rfl
  · dsimp only at hpaid ⊢
    rw [hgain, hpaid, hs.total_eq]
    congr 1
    omega
  · dsimp only
    rw [hgain]
    omega
  · rcases hallowed with hsucceeded | hle
    · exact .inl hsucceeded
    · right
      unfold spare at hle ⊢
      dsimp only
      rw [hgain]
      omega
  · have hzero := hs.cancelled_spare hcancelled
    have hle := hallowed.resolve_left fun hsucceeded => by
      have hgoing := hsucceeded.1
      dsimp only at hcancelled
      rw [hcancelled] at hgoing
      cases hgoing
    unfold spare at hzero hle ⊢
    dsimp only
    rw [hgain]
    omega
  · have hx := hintact ⟨purpose, token, house, creator, amount⟩
      (List.mem_append_right _ List.mem_cons_self)
    rcases hpurpose with rfl | rfl
    · exact absurd rfl hx.1
    · exact absurd rfl hx.2

theorem held_of_accepts {replies : TokenReplies Purpose} (hempty : ledger token house = 0)
    (hhonest : replies.NoOverdraft ledger token house) {purpose : Purpose} {target : Address}
    {amount : ℤ} (haccepts : replies.accepts s.transfers ⟨purpose, token, house, target, amount⟩) :
    amount ≤ gain token house s.transfers := by
  have hcovered := hhonest _ _ rfl rfl haccepts
  rw [replay_eq_gain, hempty, zero_add] at hcovered
  exact hcovered

theorem refundOne_reserved {env : Env} {pledger : Address} (hempty : ledger token house = 0)
    (hhonest : env.tokens.NoOverdraft ledger token house)
    (hs : Reserved house creator token goal now s)
    (hmissed : s.cancelled = some false → Intact s.transfers → Missed s now)
    (h : refundOne house env token s pledger = .ok t) :
    Reserved house creator token goal now t ∧
      (t.cancelled = some false → Intact t.transfers → Missed t now) := by
  unfold refundOne at h
  dsimp only at h
  split at h
  · next hpledge =>
    obtain ⟨haccepts, rfl⟩ := recordTransfer_eq_ok.mp h
    have hnext := hs.returned hpledge (held_of_accepts hempty hhonest haccepts)
      (.inr ⟨(rfl : Purpose.refund = .refund), rfl, hmissed⟩)
    rw [← hs.total_eq] at hnext
    exact ⟨hnext, fun hgoing hintact => hmissed hgoing hintact.of_append⟩
  · rw [pure_eq_ok] at h
    subst h
    exact ⟨hs, hmissed⟩

theorem refundAll_reserved {env : Env} {pledgers : List Address} (hempty : ledger token house = 0)
    (hhonest : env.tokens.NoOverdraft ledger token house)
    (hs : Reserved house creator token goal now s)
    (hmissed : s.cancelled = some false → Intact s.transfers → Missed s now)
    (h : pledgers.foldlM (refundOne house env token) s = .ok t) :
    Reserved house creator token goal now t := by
  induction pledgers generalizing s with
  | nil =>
    rw [List.foldlM_nil, pure_eq_ok] at h
    rw [← h]
    exact hs
  | cons pledger rest ih =>
    rw [List.foldlM_cons, bind_eq_ok] at h
    obtain ⟨s₁, hone, h⟩ := h
    obtain ⟨hs₁, hmissed₁⟩ := refundOne_reserved hempty hhonest hs hmissed hone
    exact ih hs₁ hmissed₁ h

/-- A refund is of a cancelled campaign, or after the end. When the goal was met it is not an
    ordinary refund, which `refund_batch` does not do at all. -/
theorem refund_missed {i : Invocation house} (hcall : (∃ pledger, i.call = .refund pledger) ∨
      ∃ pledgers, i.call = .refundBatch pledgers)
    (hgone : (∃ pledger, i.call = .refund pledger) →
      ¬ (s.cancelled = some false ∧ GoalMet s ∧ Intact s.transfers))
    (h : exec i s = .ok t) (hgoing : s.cancelled = some false) (hintact : Intact s.transfers) :
    Missed s i.sequence := by
  rcases hcall with ⟨pledger, hcall⟩ | ⟨pledgers, hcall⟩
  · simp only [exec, hcall, refund, bind_eq_ok, rejectIf_eq_ok, getInstance, okOr_eq_ok] at h
    obtain ⟨_, _, cancelled, hcancelled, deadline, hdeadline, _, hlate, _⟩ := h
    have hended := (permitted hcancelled hdeadline hlate).resolve_left (by simp [hgoing])
    exact ⟨⟨deadline, hdeadline, hended deadline hdeadline⟩,
      fun hmet => hgone ⟨pledger, hcall⟩ ⟨hgoing, hmet, hintact⟩⟩
  · simp only [exec, hcall, refundBatch, bind_eq_ok, rejectIf_eq_ok, getInstance, okOr_eq_ok] at h
    obtain ⟨_, _, cancelled, hcancelled, deadline, hdeadline, _, hlate, goal, hgoal, total, htotal, _,
      hbelow, _⟩ := h
    have hended := (permitted hcancelled hdeadline hlate).resolve_left (by simp [hgoing])
    refine ⟨⟨deadline, hdeadline, hended deadline hdeadline⟩, ?_⟩
    rintro ⟨goal', hgoal', total', htotal', hmet⟩
    rw [Option.mem_def, hgoal] at hgoal'
    rw [Option.mem_def, htotal] at htotal'
    cases hgoal'
    cases htotal'
    rw [hgoing] at hcancelled
    cases hcancelled
    exact hbelow ⟨by simp, hmet⟩

theorem exec_reserved {i : Invocation house} (hs : Reserved house creator token goal i.sequence s)
    (hcreator : creator ≠ house) (hempty : ledger token house = 0)
    (hhonest : i.tokens.NoOverdraft ledger token house) (hnonneg : i.tokens.RejectsNegative token)
    (hcancel : i.call = .cancelCampaign → ¬ 0 < spare token house s)
    (hclaim : i.call = .claim → s.cancelled ≠ some true)
    (hrefund : (∃ pledger, i.call = .refund pledger) →
      ¬ (s.cancelled = some false ∧ GoalMet s ∧ Intact s.transfers))
    (h : exec i s = .ok t) : Reserved house creator token goal i.sequence t := by
  have hne : ∀ a ∈ i.auths, a ≠ house := by
    rintro a ha rfl
    exact i.outside ha
  have hok := h
  cases exec_move h with
  | initialized hnone =>
    rw [hs.creator_eq] at hnone
    cases hnone
  | pledged pledger other amount totalPledged deadline _ hamount hdeadline hopen hgoing hauth _ htoken
      htotal h =>
    obtain rfl := hs.token_unique htoken
    obtain rfl := hs.total_unique htotal
    have hpledger := hne pledger hauth
    have hold : NonnegEntries s.pledges := fun p v hv => le_of_lt (hs.pledge_pos p v hv)
    have hsum := hold.entry_nonneg pledger
    rw [h]
    refine hs.received (.inl rfl) hamount hpledger hdeadline hopen hgoing ?_ (fun p v hv => ?_) ?_ _ _
    · exact (entry_insert_of_ne _ _ (Ne.symm hpledger)).trans hs.house_none
    · rw [lookup_insert_ite] at hv
      split at hv
      · cases hv
        omega
      · exact hs.pledge_pos p v hv
    · rw [total_insert]
      omega
  | withdrawn pledger other totalPledged deadline _ hdeadline hopen _ hauth hpledge htoken htotal h =>
    obtain rfl := hs.token_unique htoken
    obtain rfl := hs.total_unique htotal
    have hold : NonnegEntries s.pledges := fun p v hv => le_of_lt (hs.pledge_pos p v hv)
    have hle := hold.entry_le_total pledger
    have hcovered := hs.covered_open hdeadline hopen
    unfold spare at hcovered
    rw [h]
    exact hs.returned hpledge (by omega) (.inl ⟨rfl, rfl, deadline, hdeadline, hopen⟩)
  | refunded pledgers other hcall hpermitted htoken h =>
    obtain rfl := hs.token_unique htoken
    exact refundAll_reserved hempty hhonest hs
      (fun hgoing hintact => refund_missed hcall hrefund hok hgoing hintact) h
  | claimed payee other totalPledged deadline hcall hpayee hdeadline hlate _ htoken htotal hmet
      haccepts h =>
    obtain rfl := hs.token_unique htoken
    rw [hs.creator_eq] at hpayee
    cases hpayee
    obtain ⟨cancelled, hcancelled⟩ := Option.isSome_iff_exists.mp hs.cancelled_isSome
    cases cancelled with
    | true => exact absurd hcancelled (hclaim hcall)
    | false =>
      rw [h]
      exact hs.paid hcreator (.inr rfl) (hnonneg _ _ rfl haccepts)
        (held_of_accepts hempty hhonest haccepts) (.inl ⟨hcancelled, ⟨deadline, hdeadline, hlate⟩,
        goal, hs.goal_eq, _, htotal, hmet goal hs.goal_eq⟩) _
  | extended deadline newDeadline _ hdeadline hopen h =>
    rw [h]
    exact { hs with
      deadline_isSome := rfl
      covered := .inr (hs.covered_open hdeadline hopen)
      unrefunded := fun hgoing hintact =>
        .inl (hs.unrefunded_open hdeadline hopen hgoing hintact) }
  | cancelled deadline hcall hdeadline hopen h =>
    have hcovered := hs.covered_open hdeadline hopen
    have hnone := hcancel hcall
    rw [h]
    refine { hs with
      cancelled_isSome := rfl
      covered := .inr hcovered
      cancelled_spare := fun _ => ?_
      unrefunded := fun hgoing => by cases hgoing }
    change spare token house s = 0
    omega

/-- A call that does not mishandle the pool keeps the reserve. -/
theorem execCampaign_reserved {i : CampaignInvocation house} {c d : Campaign}
    (hs : Reserved house creator token goal i.sequence c.toState) (hcreator : creator ≠ house)
    (hempty : ledger token house = 0) (hhonest : i.tokens.NoOverdraft ledger token house)
    (hnonneg : i.tokens.RejectsNegative token) (hcalls : ¬ Mishandles token c i)
    (h : execCampaign i c = .ok d) : Reserved house creator token goal i.sequence d.toState := by
  cases execCampaign_move h with
  | funded call hcall hok =>
    unfold Mishandles at hcalls
    rw [hcall] at hcalls
    refine exec_reserved hs hcreator hempty hhonest hnonneg ?_ ?_ ?_ hok
    · rintro (rfl : call = _)
      exact hcalls
    · rintro (rfl : call = _)
      exact hcalls
    · rintro ⟨pledger, (rfl : call = _)⟩
      exact hcalls
  | noted _ h =>
    rw [h]
    exact hs
  | released payee other milestone hcall hfind hpayee htoken haccepts h =>
    obtain rfl := hs.token_unique htoken
    rw [hs.creator_eq] at hpayee
    cases hpayee
    rw [h]
    refine hs.paid hcreator (.inl rfl) (hnonneg _ _ rfl haccepts)
      (held_of_accepts hempty hhonest haccepts) ?_ _
    unfold Mishandles at hcalls
    rw [hcall] at hcalls
    by_contra hnot
    rw [not_or, not_le] at hnot
    exact hcalls ⟨hnot.1, milestone, hfind, hnot.2⟩
  | pledged pledger other amount totalPledged deadline hcall hamount hdeadline hopen hauth htotal h =>
    unfold Mishandles at hcalls
    rw [hcall, not_or, not_not] at hcalls
    obtain ⟨rfl, hgoing⟩ := hcalls
    obtain rfl := hs.total_unique htotal
    have hpledger : pledger ≠ house := by
      rintro rfl
      exact i.outside hauth
    obtain ⟨cancelled, hcancelled⟩ := Option.isSome_iff_exists.mp hs.cancelled_isSome
    cases cancelled with
    | true => exact absurd hcancelled hgoing
    | false =>
      rw [h]
      exact hs.received (.inr rfl) hamount hpledger hdeadline hopen hcancelled hs.house_none hs.pledge_pos
        (by omega) _ _

end Steps

end SorobanKit.Crowdfund
