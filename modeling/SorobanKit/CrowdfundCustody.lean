import SorobanKit.CrowdfundContract

set_option autoImplicit false

/-!
# Custody of the pledges

Until the claim the contract holds exactly the pledges. A refund lowers the pledges and not
`TotalPledged`, so after one the claim would pay more than the contract holds, which an honest
token refuses; and after the claim nothing is left that a refund could take.
-/
namespace SorobanKit.Crowdfund
open HostBalances HostInteger HostInvocation HostRuns HostTransfers

/-- Everything a returning call can do, with the guards it passed. -/
inductive Move {house : Address} (i : Invocation house) (s t : State) : Prop where
  | initialized (hnone : s.creator = none)
  | pledged (pledger token : Address) (amount total : ℤ) (deadline : ℕ) (hcall : i.call ≠ .claim)
      (hamount : 0 < amount)
      (hdeadline : s.deadline = some deadline) (hopen : i.sequence ≤ deadline)
      (hgoing : s.cancelled = some false) (hauth : pledger ∈ i.auths)
      (hcap : ∀ cap, s.maxPledgePerAddress = some cap → entry s.pledges pledger + amount ≤ cap)
      (htoken : s.token = some token) (htotal : s.totalPledged = some total)
      (h : t = { s with
        pledgeTier := t.pledgeTier, tierBackerCount := t.tierBackerCount,
        pledges := s.pledges.insert pledger (entry s.pledges pledger + amount),
        totalPledged := some (total + amount),
        transfers := s.transfers ++ [⟨.pledge, token, pledger, house, amount⟩] })
  | withdrawn (pledger token : Address) (total : ℤ) (deadline : ℕ) (hcall : i.call ≠ .claim)
      (hdeadline : s.deadline = some deadline) (hopen : i.sequence ≤ deadline)
      (hbelow : ∀ goal, s.goal = some goal → total < goal)
      (hauth : pledger ∈ i.auths) (hpledge : 0 < entry s.pledges pledger)
      (htoken : s.token = some token) (htotal : s.totalPledged = some total)
      (h : t = { s with
        pledges := s.pledges.erase pledger,
        totalPledged := some (total - entry s.pledges pledger),
        transfers := s.transfers ++
          [⟨.withdrawal, token, house, pledger, entry s.pledges pledger⟩] })
  | refunded (pledgers : List Address) (token : Address)
      (hcall : (∃ pledger, i.call = .refund pledger) ∨ ∃ pledgers, i.call = .refundBatch pledgers)
      (hpermitted : s.cancelled = some true ∨ ∀ deadline, s.deadline = some deadline →
        deadline < i.sequence)
      (htoken : s.token = some token)
      (h : pledgers.foldlM (refundOne house i.toEnv token) s = .ok t)
  | claimed (creator token : Address) (total : ℤ) (deadline : ℕ) (hcall : i.call = .claim)
      (hcreator : s.creator = some creator) (hdeadline : s.deadline = some deadline)
      (hlate : deadline < i.sequence) (hopen : s.claimed = some false) (htoken : s.token = some token)
      (htotal : s.totalPledged = some total) (hmet : ∀ goal, s.goal = some goal → goal ≤ total)
      (haccepts : i.tokens.accepts s.transfers ⟨.claim, token, house, creator, total⟩)
      (h : t = { s with
        claimed := some true,
        transfers := s.transfers ++ [⟨.claim, token, house, creator, total⟩] })
  | extended (deadline newDeadline : ℕ) (hcall : i.call ≠ .claim)
      (hdeadline : s.deadline = some deadline) (hopen : i.sequence ≤ deadline)
      (h : t = { s with deadline := some newDeadline, deadlineExtended := some true })
  | cancelled (deadline : ℕ) (hcall : i.call = .cancelCampaign) (hdeadline : s.deadline = some deadline)
      (hopen : i.sequence ≤ deadline) (h : t = { s with cancelled := some true })

section Moves
variable {house : Address} {env : Env} {i : Invocation house} {s t : State}

theorem countBacker_ok {pledger : Address} {tid : ℕ} {tier : FundingTier}
    (h : countBacker pledger tid tier s = .ok t) :
    t = { s with tierBackerCount := t.tierBackerCount } := by
  unfold countBacker at h
  split at h
  · rw [pure_eq_ok] at h
    rw [← h]
  · simp only [bind_eq_ok] at h
    obtain ⟨_, _, h⟩ := h
    split at h
    · rw [pure_eq_ok] at h
      rw [← h]
    · simp only [bind_eq_ok, pure_eq_ok] at h
      obtain ⟨count, _, rfl⟩ := h
      rfl

theorem selectTier_ok {pledger : Address} {tierId : Option ℕ}
    (h : selectTier pledger tierId s = .ok t) :
    t = { s with pledgeTier := t.pledgeTier, tierBackerCount := t.tierBackerCount } := by
  unfold selectTier at h
  split at h
  · rw [pure_eq_ok] at h
    rw [← h]
  · simp only [bind_eq_ok, pure_eq_ok] at h
    obtain ⟨tiers, _, tier, _, s₁, hcount, rfl⟩ := h
    rw [countBacker_ok hcount]

theorem pledge_move {pledger : Address} {amount : ℤ} {tierId : Option ℕ}
    (hcall : i.call = .pledge pledger amount tierId)
    (h : pledge house i.toEnv pledger amount tierId s = .ok t) : Move i s t := by
  simp only [pledge, bind_eq_ok, rejectIf_eq_ok, getInstance, okOr_eq_ok, requireAuth_eq_ok,
    checkedAdd_eq_some, not_le, not_lt] at h
  obtain ⟨_, hamount, deadline, hdeadline, _, hopen, cancelled, hcancelled, _, hgoing, _, hauth, _,
    ⟨_, rfl⟩, _, hcap, s₁, htier, token, htoken, total, htotal, _, ⟨_, rfl⟩, hpay⟩ := h
  have hs₁ := selectTier_ok htier
  obtain ⟨_, rfl⟩ := recordTransfer_eq_ok.mp hpay
  have hnot : cancelled = false := by simpa using hgoing
  refine .pledged pledger token amount total deadline (by simp [hcall]) hamount hdeadline hopen
    (by rw [hcancelled, hnot]) hauth (fun cap hsome => ?_) ?_ ?_ ?_
  · by_contra hover
    exact hcap ⟨cap, hsome, by omega⟩
  · rw [hs₁] at htoken
    exact htoken
  · rw [hs₁] at htotal
    exact htotal
  · rw [hs₁]

theorem withdraw_move {pledger : Address} (hcall : i.call = .withdraw pledger)
    (h : withdraw house i.toEnv pledger s = .ok t) : Move i s t := by
  simp only [withdraw, bind_eq_ok, rejectIf_eq_ok, getInstance, okOr_eq_ok, requireAuth_eq_ok,
    unwrap_eq_ok, checkedSub_eq_some, not_lt] at h
  obtain ⟨_, _, deadline, hdeadline, _, hopen, goal, hgoal, total, htotal, _, hbelow, _, hauth, _,
    hpledge, _, ⟨_, rfl⟩, token, htoken, hpay⟩ := h
  obtain ⟨_, rfl⟩ := recordTransfer_eq_ok.mp hpay
  refine .withdrawn pledger token total deadline (by simp [hcall]) hdeadline hopen (fun g hg => ?_)
    hauth (not_le.mp hpledge) htoken htotal rfl
  rw [hgoal] at hg
  cases hg
  exact not_le.mp hbelow

theorem permitted {cancelled : Bool} {deadline now : ℕ} (hcancelled : s.cancelled = some cancelled)
    (hdeadline : s.deadline = some deadline) (h : ¬ (¬ cancelled ∧ now ≤ deadline)) :
    s.cancelled = some true ∨ ∀ deadline, s.deadline = some deadline → deadline < now := by
  cases cancelled with
  | true => exact .inl hcancelled
  | false =>
    refine .inr fun other hother => ?_
    rw [hdeadline] at hother
    cases hother
    simp only [Bool.false_eq_true, not_false_eq_true, true_and, not_le] at h
    exact h

theorem refund_move {pledger : Address} (hcall : i.call = .refund pledger)
    (h : refund house i.toEnv pledger s = .ok t) : Move i s t := by
  simp only [refund, bind_eq_ok, rejectIf_eq_ok, getInstance, okOr_eq_ok] at h
  obtain ⟨_, _, cancelled, hcancelled, deadline, hdeadline, _, hlate, goal, _, total, _, claimed, _, _,
    _, _, _, _, hpledge, token, htoken, hpay⟩ := h
  refine .refunded [pledger] token (.inl ⟨pledger, hcall⟩) (permitted hcancelled hdeadline hlate) htoken ?_
  rw [List.foldlM_cons, bind_eq_ok]
  refine ⟨t, ?_, rfl⟩
  rw [refundOne, if_pos (not_le.mp hpledge)]
  exact hpay

theorem claim_move (hcall : i.call = .claim) (h : claim house i.toEnv s = .ok t) : Move i s t := by
  simp only [claim, bind_eq_ok, rejectIf_eq_ok, getInstance, okOr_eq_ok, not_le] at h
  obtain ⟨creator, hcreator, _, _, deadline, hdeadline, _, hlate, claimed, hclaimed, _, hopen, goal,
    hgoal, total, htotal, _, hmet, token, htoken, hpay⟩ := h
  obtain ⟨haccepts, rfl⟩ := recordTransfer_eq_ok.mp hpay
  have hnot : claimed = false := by simpa using hopen
  refine .claimed creator token total deadline hcall hcreator hdeadline hlate (by rw [hclaimed, hnot])
    htoken htotal (fun g hg => ?_) haccepts rfl
  rw [hgoal] at hg
  cases hg
  exact not_lt.mp hmet

theorem exec_move (h : exec i s = .ok t) : Move i s t := by
  unfold exec at h
  cases hcall : i.call with
  | initializeCampaign =>
    simp only [hcall, initializeCampaign, bind_eq_ok, rejectIf_eq_ok] at h
    obtain ⟨_, hnone, _⟩ := h
    exact .initialized (by simpa using hnone)
  | pledge pledger amount tierId =>
    rw [hcall] at h
    exact pledge_move hcall h
  | withdraw pledger =>
    rw [hcall] at h
    exact withdraw_move hcall h
  | refund pledger =>
    rw [hcall] at h
    exact refund_move hcall h
  | refundBatch pledgers =>
    simp only [hcall, refundBatch, bind_eq_ok, rejectIf_eq_ok, getInstance, okOr_eq_ok] at h
    obtain ⟨_, _, cancelled, hcancelled, deadline, hdeadline, _, hlate, _, _, _, _, _, _, token, htoken,
      h⟩ := h
    exact .refunded pledgers token (.inr ⟨pledgers, hcall⟩) (permitted hcancelled hdeadline hlate) htoken
      h
  | extendDeadline newDeadline =>
    simp only [hcall, extendDeadline, bind_eq_ok, rejectIf_eq_ok, getInstance, okOr_eq_ok, pure_eq_ok,
      not_lt] at h
    obtain ⟨_, _, _, _, deadline, hdeadline, _, hopen, _, _, _, _, _, _, rfl⟩ := h
    exact .extended deadline newDeadline (by simp [hcall]) hdeadline hopen rfl
  | claim =>
    rw [hcall] at h
    exact claim_move hcall h
  | cancelCampaign =>
    simp only [hcall, cancelCampaign, bind_eq_ok, rejectIf_eq_ok, getInstance, okOr_eq_ok, pure_eq_ok,
      not_lt] at h
    obtain ⟨_, _, _, _, deadline, hdeadline, _, hopen, _, _, _, _, rfl⟩ := h
    exact .cancelled deadline hcall hdeadline hopen rfl

end Moves

/-- Everything paid out by refunds. -/
def refunded (log : List (Transfer Purpose)) : ℤ := sumOf (fun x => x.purpose = .refund) log

/-- What one pledger paid in. -/
def pledgedBy (pledger : Address) (log : List (Transfer Purpose)) : ℤ :=
  sumOf (fun x => x.purpose = .pledge ∧ x.source = pledger) log

/-- What one pledger got back. -/
def returnedTo (pledger : Address) (log : List (Transfer Purpose)) : ℤ :=
  sumOf (fun x => (x.purpose = .withdrawal ∨ x.purpose = .refund) ∧ x.target = pledger) log

theorem refunded_snoc (log : List (Transfer Purpose)) (x : Transfer Purpose) :
    refunded (log ++ [x]) = refunded log + if x.purpose = .refund then x.amount else 0 := by
  unfold refunded
  rw [sumOf_append, sumOf_cons, sumOf_nil, add_zero]
  simp only [decide_eq_true_eq]

theorem pledgedBy_snoc (pledger : Address) (log : List (Transfer Purpose)) (x : Transfer Purpose) :
    pledgedBy pledger (log ++ [x]) = pledgedBy pledger log +
      if x.purpose = .pledge ∧ x.source = pledger then x.amount else 0 := by
  unfold pledgedBy
  rw [sumOf_append, sumOf_cons, sumOf_nil, add_zero]
  simp only [decide_eq_true_eq]

theorem returnedTo_snoc (pledger : Address) (log : List (Transfer Purpose)) (x : Transfer Purpose) :
    returnedTo pledger (log ++ [x]) = returnedTo pledger log +
      if (x.purpose = .withdrawal ∨ x.purpose = .refund) ∧ x.target = pledger then x.amount
      else 0 := by
  unfold returnedTo
  rw [sumOf_append, sumOf_cons, sumOf_nil, add_zero]
  simp only [decide_eq_true_eq]

structure Backed (house creator token : Address) (now : ℕ) (s : State) : Prop where
  creator_eq : s.creator = some creator
  token_eq : s.token = some token
  house_none : entry s.pledges house = 0
  pledge_ok : ∀ p v, s.pledges.lookup p = some v →
    0 < v ∧ ∀ cap, s.maxPledgePerAddress = some cap → v ≤ cap
  refunded_nonneg : 0 ≤ refunded s.transfers
  total_eq : s.totalPledged = some (total s.pledges + refunded s.transfers)
  gain_open : s.claimed = some false → gain token house s.transfers = total s.pledges
  gain_closed : s.claimed = some true → gain token house s.transfers = 0
  closed_late : s.claimed = some true → ∀ deadline, s.deadline = some deadline → deadline < now
  each_eq : ∀ p, pledgedBy p s.transfers = returnedTo p s.transfers + entry s.pledges p

section Steps
variable {house creator token : Address} {now : ℕ} {ledger : Ledger} {s t : State}

theorem Backed.later (hs : Backed house creator token now s) {later : ℕ} (h : now ≤ later) :
    Backed house creator token later s :=
  { hs with closed_late := fun hclaimed deadline hdeadline =>
      lt_of_lt_of_le (hs.closed_late hclaimed deadline hdeadline) h }

theorem Backed.token_unique (hs : Backed house creator token now s) {other : Address}
    (h : s.token = some other) : other = token := by
  rw [hs.token_eq] at h
  exact (Option.some.inj h).symm

theorem Backed.total_unique (hs : Backed house creator token now s) {totalPledged : ℤ}
    (h : s.totalPledged = some totalPledged) :
    totalPledged = total s.pledges + refunded s.transfers := by
  rw [hs.total_eq] at h
  exact (Option.some.inj h).symm

/-- Before the deadline nothing was claimed. -/
theorem Backed.not_claimed (hs : Backed house creator token now s) {deadline : ℕ}
    (hdeadline : s.deadline = some deadline) (hopen : now ≤ deadline) : s.claimed ≠ some true := by
  intro hclaimed
  have hlate := hs.closed_late hclaimed deadline hdeadline
  omega

theorem Backed.pledged (hs : Backed house creator token now s) {pledger : Address} {amount : ℤ}
    (hamount : 0 < amount) (hne : pledger ≠ house) (hclaimed : s.claimed ≠ some true)
    (hcap : ∀ cap, s.maxPledgePerAddress = some cap → entry s.pledges pledger + amount ≤ cap)
    (pledgeTier : Finmap (fun _ : Address => Option ℕ))
    (tierBackerCount : Finmap (fun _ : ℕ => ℕ)) :
    Backed house creator token now { s with
      pledgeTier := pledgeTier, tierBackerCount := tierBackerCount,
      pledges := s.pledges.insert pledger (entry s.pledges pledger + amount),
      totalPledged := some (total s.pledges + refunded s.transfers + amount),
      transfers := s.transfers ++ [⟨.pledge, token, pledger, house, amount⟩] } := by
  have hnonneg : NonnegEntries s.pledges := fun p v hv => le_of_lt (hs.pledge_ok p v hv).1
  have hold := hnonneg.entry_nonneg pledger
  have hrefunded := refunded_snoc s.transfers ⟨.pledge, token, pledger, house, amount⟩
  rw [if_neg (by simp), add_zero] at hrefunded
  refine { hs with
    house_none := (entry_insert_of_ne _ _ (Ne.symm hne)).trans hs.house_none
    pledge_ok := fun p v hv => ?_
    refunded_nonneg := le_of_le_of_eq hs.refunded_nonneg hrefunded.symm
    total_eq := ?_
    gain_open := fun hopen => ?_
    gain_closed := fun hclosed => absurd hclosed hclaimed
    each_eq := fun p => ?_ }
  · rw [lookup_insert_ite] at hv
    split at hv
    · cases hv
      exact ⟨by omega, hcap⟩
    · exact hs.pledge_ok p v hv
  · dsimp only
    rw [hrefunded, total_insert]
    congr 1
    omega
  · have hgain := hs.gain_open hopen
    dsimp only
    rw [gain_append, gain_incoming _ _ hne, total_insert]
    omega
  · have heach := hs.each_eq p
    dsimp only
    rw [pledgedBy_snoc, returnedTo_snoc, if_neg (c := _ ∧ house = p) (by simp)]
    by_cases hp : p = pledger
    · subst hp
      rw [if_pos ⟨rfl, rfl⟩, entry_insert_self]
      dsimp only
      omega
    · rw [if_neg (by simp [Ne.symm hp]), entry_insert_of_ne _ _ hp]
      omega

/-- A pledge leaves the contract, and whatever becomes of `TotalPledged` is accounted for. -/
theorem Backed.returned (hs : Backed house creator token now s) {pledger : Address}
    {purpose : Purpose} (hne : pledger ≠ house) (hpledge : 0 ≤ entry s.pledges pledger)
    (hclaimed : s.claimed ≠ some true) {totalPledged : ℤ}
    (hpurpose : (purpose = .withdrawal ∧
        totalPledged = total s.pledges + refunded s.transfers - entry s.pledges pledger) ∨
      (purpose = .refund ∧ totalPledged = total s.pledges + refunded s.transfers)) :
    Backed house creator token now { s with
      pledges := s.pledges.erase pledger,
      totalPledged := some totalPledged,
      transfers := s.transfers ++
        [⟨purpose, token, house, pledger, entry s.pledges pledger⟩] } := by
  have hnonneg := hs.refunded_nonneg
  have hrefunded := refunded_snoc s.transfers
    ⟨purpose, token, house, pledger, entry s.pledges pledger⟩
  have hkind : purpose ≠ .pledge ∧ (purpose = .withdrawal ∨ purpose = .refund) := by
    rcases hpurpose with ⟨rfl, _⟩ | ⟨rfl, _⟩
    · exact ⟨by decide, .inl rfl⟩
    · exact ⟨by decide, .inr rfl⟩
  refine { hs with
    house_none := (entry_erase_of_ne _ (Ne.symm hne)).trans hs.house_none
    pledge_ok := fun p v hv => ?_
    refunded_nonneg := ?_
    total_eq := ?_
    gain_open := fun hopen => ?_
    gain_closed := fun hclosed => absurd hclosed hclaimed
    each_eq := fun p => ?_ }
  · exact hs.pledge_ok p v (of_lookup_erase hv).2
  · dsimp only at hrefunded ⊢
    split at hrefunded <;> omega
  · dsimp only at hrefunded ⊢
    rw [hrefunded, total_erase]
    congr 1
    rcases hpurpose with ⟨rfl, rfl⟩ | ⟨rfl, rfl⟩
    · rw [if_neg (by decide)]
      omega
    · rw [if_pos rfl]
      omega
  · have hgain := hs.gain_open hopen
    dsimp only
    rw [gain_append, gain_outgoing _ _ hne, total_erase]
    omega
  · have heach := hs.each_eq p
    dsimp only
    rw [pledgedBy_snoc, returnedTo_snoc, if_neg (c := _ ∧ house = p) fun h => hkind.1 h.1]
    by_cases hp : p = pledger
    · subst hp
      rw [if_pos ⟨hkind.2, rfl⟩, entry_erase_self]
      dsimp only
      omega
    · rw [if_neg fun h => hp h.2.symm, entry_erase_of_ne _ hp]
      omega

theorem Backed.claimed (hs : Backed house creator token now s) (hcreator : creator ≠ house)
    (hopen : s.claimed = some false) {deadline : ℕ} (hdeadline : s.deadline = some deadline)
    (hlate : deadline < now) :
    Backed house creator token now { s with
      claimed := some true,
      transfers := s.transfers ++ [⟨.claim, token, house, creator, total s.pledges⟩] } ∧
    gain token house (s.transfers ++ [⟨.claim, token, house, creator, total s.pledges⟩]) = 0 := by
  have hafter : gain token house
      (s.transfers ++ [⟨.claim, token, house, creator, total s.pledges⟩]) = 0 := by
    rw [gain_append, gain_outgoing _ _ hcreator, hs.gain_open hopen]
    omega
  have hrefunded := refunded_snoc s.transfers ⟨.claim, token, house, creator, total s.pledges⟩
  rw [if_neg (by simp), add_zero] at hrefunded
  refine ⟨{ hs with
    refunded_nonneg := le_of_le_of_eq hs.refunded_nonneg hrefunded.symm
    total_eq := ?_
    gain_open := fun hclaimed => by cases hclaimed
    gain_closed := fun _ => hafter
    closed_late := fun _ later hsome => ?_
    each_eq := fun p => ?_ }, hafter⟩
  · dsimp only
    rw [hrefunded]
    exact hs.total_eq
  · rw [hdeadline] at hsome
    cases hsome
    exact hlate
  · dsimp only
    rw [pledgedBy_snoc, returnedTo_snoc, if_neg (by simp), if_neg (by simp), add_zero, add_zero]
    exact hs.each_eq p

theorem refundOne_backed {env : Env} (hs : Backed house creator token now s) {pledger : Address}
    (hempty : ledger token house = 0) (hhonest : env.tokens.NoOverdraft ledger token house)
    (h : refundOne house env token s pledger = .ok t) :
    Backed house creator token now t ∧ (s.claimed = some true → t = s) := by
  unfold refundOne at h
  dsimp only at h
  split at h
  · next hpledge =>
    obtain ⟨haccepts, rfl⟩ := recordTransfer_eq_ok.mp h
    have hne : pledger ≠ house := by
      rintro rfl
      rw [hs.house_none] at hpledge
      omega
    have hclaimed : s.claimed ≠ some true := by
      intro hclosed
      have hcovered := hhonest _ _ rfl rfl haccepts
      rw [replay_eq_gain, hempty, hs.gain_closed hclosed] at hcovered
      dsimp only at hcovered
      omega
    refine ⟨?_, fun hclosed => absurd hclosed hclaimed⟩
    have hnext := hs.returned hne (le_of_lt hpledge) hclaimed
      (.inr ⟨(rfl : Purpose.refund = .refund), rfl⟩)
    rw [← hs.total_eq] at hnext
    exact hnext
  · rw [pure_eq_ok] at h
    subst h
    exact ⟨hs, fun _ => rfl⟩

theorem refundAll_backed {env : Env} (hs : Backed house creator token now s) {pledgers : List Address}
    (hempty : ledger token house = 0) (hhonest : env.tokens.NoOverdraft ledger token house)
    (h : pledgers.foldlM (refundOne house env token) s = .ok t) :
    Backed house creator token now t ∧ (s.claimed = some true → t = s) := by
  induction pledgers generalizing s with
  | nil =>
    rw [List.foldlM_nil, pure_eq_ok] at h
    subst h
    exact ⟨hs, fun _ => rfl⟩
  | cons pledger rest ih =>
    rw [List.foldlM_cons, bind_eq_ok] at h
    obtain ⟨s₁, hone, h⟩ := h
    obtain ⟨hs₁, hsame₁⟩ := refundOne_backed hs hempty hhonest hone
    obtain ⟨ht, hsame⟩ := ih hs₁ h
    refine ⟨ht, fun hclosed => ?_⟩
    have heq := hsame₁ hclosed
    subst heq
    exact hsame hclosed

/-- What a call can do to the pledges, and that it does nothing once they were claimed. -/
theorem exec_backed {i : Invocation house} (hs : Backed house creator token i.sequence s)
    (hcreator : creator ≠ house) (hempty : ledger token house = 0)
    (hhonest : i.tokens.NoOverdraft ledger token house) (h : exec i s = .ok t) :
    Backed house creator token i.sequence t ∧
      (s.claimed = some true → t.transfers = s.transfers) ∧
      (i.call = .claim →
        t.transfers = s.transfers ++ [⟨.claim, token, house, creator, total s.pledges⟩] ∧
          gain token house t.transfers = 0) := by
  have hne : ∀ a ∈ i.auths, a ≠ house := by
    rintro a ha rfl
    exact i.outside ha
  cases exec_move h with
  | initialized hnone =>
    rw [hs.creator_eq] at hnone
    cases hnone
  | pledged pledger other amount totalPledged deadline hcall hamount hdeadline hopen _ hauth hcap
      htoken htotal h =>
    obtain rfl := hs.token_unique htoken
    obtain rfl := hs.total_unique htotal
    have hclaimed := hs.not_claimed hdeadline hopen
    rw [h]
    exact ⟨hs.pledged hamount (hne pledger hauth) hclaimed hcap _ _,
      fun hclosed => absurd hclosed hclaimed, fun hclaim => absurd hclaim hcall⟩
  | withdrawn pledger other totalPledged deadline hcall hdeadline hopen _ hauth hpledge htoken htotal
      h =>
    obtain rfl := hs.token_unique htoken
    obtain rfl := hs.total_unique htotal
    have hclaimed := hs.not_claimed hdeadline hopen
    rw [h]
    exact ⟨hs.returned (hne pledger hauth) (le_of_lt hpledge) hclaimed (.inl ⟨rfl, rfl⟩),
      fun hclosed => absurd hclosed hclaimed, fun hclaim => absurd hclaim hcall⟩
  | refunded pledgers other hcall _ htoken h =>
    obtain rfl := hs.token_unique htoken
    obtain ⟨ht, hsame⟩ := refundAll_backed hs hempty hhonest h
    refine ⟨ht, fun hclosed => by rw [hsame hclosed], fun hclaim => ?_⟩
    rcases hcall with ⟨_, hcall⟩ | ⟨_, hcall⟩
    · rw [hcall] at hclaim
      cases hclaim
    · rw [hcall] at hclaim
      cases hclaim
  | claimed payee other totalPledged deadline _ hpayee hdeadline hlate hopen htoken htotal _ haccepts
      h =>
    obtain rfl := hs.token_unique htoken
    obtain rfl := hs.total_unique htotal
    rw [hs.creator_eq] at hpayee
    cases hpayee
    -- an honest token pays `TotalPledged` only when nothing was refunded
    have hnone : refunded s.transfers = 0 := by
      have hnonneg := hs.refunded_nonneg
      have hcovered := hhonest _ _ rfl rfl haccepts
      rw [replay_eq_gain, hempty, hs.gain_open hopen] at hcovered
      dsimp only at hcovered
      omega
    rw [hnone, add_zero] at h
    obtain ⟨hclaimed, hafter⟩ := hs.claimed hcreator hopen hdeadline hlate
    rw [h]
    refine ⟨hclaimed, fun hclosed => ?_, fun _ => ⟨rfl, hafter⟩⟩
    rw [hopen] at hclosed
    cases hclosed
  | extended deadline newDeadline hcall hdeadline hopen h =>
    have hclaimed := hs.not_claimed hdeadline hopen
    rw [h]
    exact ⟨{ hs with closed_late := fun hclosed => absurd hclosed hclaimed },
      fun hclosed => absurd hclosed hclaimed, fun hclaim => absurd hclaim hcall⟩
  | cancelled deadline hcall hdeadline hopen h =>
    have hclaimed := hs.not_claimed hdeadline hopen
    rw [h]
    refine ⟨{ hs with closed_late := fun hclosed => absurd hclosed hclaimed },
      fun hclosed => absurd hclosed hclaimed, fun hclaim => ?_⟩
    rw [hcall] at hclaim
    cases hclaim

end Steps

theorem initializeCampaign_backed {house creator token : Address} {env : Env} {goal : ℤ}
    {deadline : ℕ} {tiers : List FundingTier} {maxPledgePerAddress : Option ℤ}
    {claimWindow : Option ℕ} {s : State} (h : initializeCampaign env creator token goal deadline tiers
      maxPledgePerAddress claimWindow State.empty = .ok s) :
    creator ∈ env.auths ∧ Backed house creator token env.sequence s := by
  simp only [initializeCampaign, bind_eq_ok, requireAuth_eq_ok, pure_eq_ok] at h
  obtain ⟨_, _, _, _, _, _, _, _, _, _, _, hauth, rfl⟩ := h
  refine ⟨hauth, rfl, rfl, rfl, fun p v hv => ?_, le_refl 0, rfl, fun _ => rfl,
    fun hclaimed => (by cases hclaimed), fun hclaimed => (by cases hclaimed), fun p => rfl⟩
  simp [State.empty] at hv

/-- In every run at non-decreasing ledgers with an honest token: until the claim the contract
    holds exactly the pledges, `TotalPledged` is the pledges and the refunds, every pledger got
    back what their pledge fell by, and a claim pays the creator all pledges, leaves nothing and
    is the last payment. -/
theorem pledge_custody (house creator token : Address) (goal : ℤ) (deadline : ℕ)
    (tiers : List FundingTier) (maxPledgePerAddress : Option ℤ) (claimWindow : Option ℕ)
    (i₀ : Invocation house) (s : State)
    (hcall : i₀.call = .initializeCampaign creator token goal deadline tiers maxPledgePerAddress
      claimWindow)
    (hinit : exec i₀ State.empty = .ok s) (is : List (Invocation house))
    (htime : (i₀ :: is).Pairwise (fun i j => i.sequence ≤ j.sequence)) (ledger : Ledger)
    (hempty : ledger token house = 0)
    (hhonest : ∀ i ∈ is, i.tokens.NoOverdraft ledger token house) :
    ((run s is).claimed = some false →
      replay ledger (run s is).transfers token house = total (run s is).pledges) ∧
    (run s is).totalPledged = some (total (run s is).pledges + refunded (run s is).transfers) ∧
    (∀ p v, (run s is).pledges.lookup p = some v →
      0 < v ∧ ∀ cap, (run s is).maxPledgePerAddress = some cap → v ≤ cap) ∧
    (∀ p, pledgedBy p (run s is).transfers =
      returnedTo p (run s is).transfers + entry (run s is).pledges p) ∧
    ∀ e ∈ history exec s is,
      (e.invocation.call = .claim →
        e.after.transfers =
          e.before.transfers ++ [⟨.claim, token, house, creator, total e.before.pledges⟩] ∧
        replay ledger e.after.transfers token house = 0) ∧
      (e.before.claimed = some true → e.after.transfers = e.before.transfers) := by
  have hstart : creator ∈ i₀.auths ∧ Backed house creator token i₀.sequence s := by
    unfold exec at hinit
    rw [hcall] at hinit
    exact initializeCampaign_backed hinit
  have hcreator : creator ≠ house := by
    rintro rfl
    exact i₀.outside hstart.1
  obtain ⟨hfirst, htime⟩ := List.pairwise_cons.mp htime
  have halong := (along_true exec s is).and_forall hhonest
  have hlater : ∀ now later (past : List (Entry State (Invocation house))) s, now ≤ later →
      Backed house creator token now s → Backed house creator token later s :=
    fun _ _ _ _ hle hs => hs.later hle
  have hstep : ∀ (past : List (Entry State (Invocation house))) s (i : Invocation house) t,
      Backed house creator token i.sequence s →
      True ∧ i.tokens.NoOverdraft ledger token house → exec i s = .ok t →
      Backed house creator token i.sequence t :=
    fun _ _ _ _ hs hi hok => (exec_backed hs hcreator hempty hi.2 hok).1
  obtain ⟨now, hrun⟩ := history_invariant_timed (fun i : Invocation house => i.sequence)
    (I := fun now _ s => Backed house creator token now s) hlater hstep hstart.2 halong hfirst htime
  change Backed house creator token now (run s is) at hrun
  refine ⟨fun hopen => ?_, hrun.total_eq, hrun.pledge_ok, hrun.each_eq, fun e he => ?_⟩
  · rw [replay_eq_gain, hempty, hrun.gain_open hopen, zero_add]
  · obtain ⟨past, later, hsplit⟩ := List.append_of_mem he
    obtain ⟨hbefore, hi, hok⟩ := history_split_timed (fun i : Invocation house => i.sequence)
      (I := fun now _ s => Backed house creator token now s) hlater hstep hstart.2 halong hfirst htime
      hsplit
    obtain ⟨_, hclosed, hclaim⟩ := exec_backed hbefore hcreator hempty hi.2 hok
    refine ⟨fun hcalled => ?_, hclosed⟩
    obtain ⟨hpaid, hgain⟩ := hclaim hcalled
    refine ⟨hpaid, ?_⟩
    rw [replay_eq_gain, hempty, hgain, zero_add]

def demoHouse : Address := ⟨60⟩
def demoCreator : Address := ⟨61⟩
def demoToken : Address := ⟨62⟩
def demoAlice : Address := ⟨63⟩
def demoBob : Address := ⟨64⟩

def demoLedger : Ledger := fun _ holder => if holder = demoHouse then 0 else 1000

def demoCall (sequence : ℕ) (call : Call) : Invocation demoHouse where
  sequence := sequence
  auths := [demoCreator, demoAlice, demoBob]
  tokens := honestReplies demoLedger
  call := call
  outside := by decide

def demoInitialize : Invocation demoHouse :=
  demoCall 1 (.initializeCampaign demoCreator demoToken 100 10 [] none none)

/-- The goal is missed and Alice is refunded. -/
def demoRun : List (Invocation demoHouse) :=
  [demoCall 2 (.pledge demoAlice 60 none), demoCall 3 (.pledge demoBob 30 none),
    demoCall 11 (.refund demoAlice)]

theorem pledge_custody_demo :
    replay demoLedger (run (run State.empty [demoInitialize]) demoRun).transfers demoToken demoHouse =
        total (run (run State.empty [demoInitialize]) demoRun).pledges ∧
      total (run (run State.empty [demoInitialize]) demoRun).pledges = 30 ∧
      (run (run State.empty [demoInitialize]) demoRun).totalPledged = some 90 := by
  have hcustody := pledge_custody demoHouse demoCreator demoToken 100 10 [] none none demoInitialize
    (run State.empty [demoInitialize]) rfl rfl demoRun (by decide) demoLedger rfl
    (by simp [demoRun, demoCall, honestReplies_noOverdraft])
  exact ⟨hcustody.1 rfl, by decide +kernel, rfl⟩

end SorobanKit.Crowdfund
