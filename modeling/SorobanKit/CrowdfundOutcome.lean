import SorobanKit.CrowdfundCustody

set_option autoImplicit false

/-!
# All or nothing

A refund relies on the claim not having taken the pledges: once a campaign was cancelled, or
missed its goal, or was left unclaimed through the claim window, the contract still holds every
pledge. `claim` itself looks at neither `Cancelled` nor the claim window.
-/
namespace SorobanKit.Crowdfund
open HostBalances HostInteger HostInvocation HostRuns HostTransfers

/-- The campaign as far as the checks of `refund` read it. -/
structure Standing (goal : ℤ) (window : ℕ) (s : State) : Prop where
  goal_eq : s.goal = some goal
  window_eq : s.claimWindow = some window
  deadline_isSome : s.deadline.isSome
  cancelled_isSome : s.cancelled.isSome
  claimed_isSome : s.claimed.isSome
  /-- Only a campaign that succeeded was claimed. -/
  claimed_met : s.claimed = some true →
    s.cancelled = some false ∧ ∀ total, s.totalPledged = some total → goal ≤ total

/-- When pledges are to be paid back. -/
def RefundDue (goal : ℤ) (window : ℕ) (s : State) (now : ℕ) : Prop :=
  s.cancelled = some true ∨ ∃ deadline total, s.deadline = some deadline ∧
    s.totalPledged = some total ∧ ((deadline < now ∧ total < goal) ∨
      (deadline + window < now ∧ s.claimed = some false))

/-- A claim of a campaign that was cancelled, or whose claim window has passed. -/
def ClaimsForfeited {house : Address} (s : State) (i : Invocation house) : Prop :=
  i.call = .claim ∧ (s.cancelled = some true ∨ ∃ deadline window, s.deadline = some deadline ∧
    s.claimWindow = some window ∧ deadline + window < i.sequence)

section Steps
variable {house creator token : Address} {now : ℕ} {ledger : Ledger} {goal : ℤ} {window : ℕ}
  {s t : State}

theorem refundOne_frame {env : Env} {pledger : Address}
    (h : refundOne house env token s pledger = .ok t) :
    t = { s with pledges := t.pledges, transfers := t.transfers } := by
  unfold refundOne at h
  dsimp only at h
  split at h
  · obtain ⟨_, rfl⟩ := recordTransfer_eq_ok.mp h
    rfl
  · rw [pure_eq_ok] at h
    rw [← h]

theorem refundAll_frame {env : Env} {pledgers : List Address}
    (h : pledgers.foldlM (refundOne house env token) s = .ok t) :
    t = { s with pledges := t.pledges, transfers := t.transfers } := by
  induction pledgers generalizing s with
  | nil =>
    rw [List.foldlM_nil, pure_eq_ok] at h
    rw [← h]
  | cons pledger rest ih =>
    rw [List.foldlM_cons, bind_eq_ok] at h
    obtain ⟨s₁, hone, h⟩ := h
    rw [ih h, refundOne_frame hone]

theorem exec_standing {i : Invocation house} (hs : Standing goal window s)
    (hbacked : Backed house creator token i.sequence s) (hdue : ¬ ClaimsForfeited s i)
    (hcall : exec i s = .ok t) : Standing goal window t := by
  cases exec_move hcall with
  | initialized hnone =>
    rw [hbacked.creator_eq] at hnone
    cases hnone
  | pledged pledger other amount totalPledged deadline _ hamount hdeadline hopen _ hauth hcap htoken
      htotal h =>
    rw [h]
    refine { hs with claimed_met := fun hclaimed => ?_ }
    exact absurd hclaimed (hbacked.not_claimed hdeadline hopen)
  | withdrawn pledger other totalPledged deadline _ hdeadline hopen _ hauth hpledge htoken htotal h =>
    rw [h]
    refine { hs with claimed_met := fun hclaimed => ?_ }
    exact absurd hclaimed (hbacked.not_claimed hdeadline hopen)
  | refunded pledgers other _ _ htoken h =>
    rw [refundAll_frame h]
    exact { hs with }
  | claimed payee other totalPledged deadline hclaim _ hdeadline hlate hopen htoken htotal hmet haccepts
      h =>
    rw [h]
    refine { hs with claimed_isSome := rfl, claimed_met := fun _ => ⟨?_, fun total hsome => ?_⟩ }
    · obtain ⟨cancelled, hcancelled⟩ := Option.isSome_iff_exists.mp hs.cancelled_isSome
      cases cancelled with
      | false => exact hcancelled
      | true => exact absurd ⟨hclaim, .inl hcancelled⟩ hdue
    · rw [htotal] at hsome
      cases hsome
      exact hmet goal hs.goal_eq
  | extended deadline newDeadline _ hdeadline hopen h =>
    rw [h]
    exact { hs with deadline_isSome := rfl }
  | cancelled deadline _ hdeadline hopen h =>
    rw [h]
    exact { hs with
      cancelled_isSome := rfl
      claimed_met := fun hclaimed => absurd hclaimed (hbacked.not_claimed hdeadline hopen) }

/-- Where a refund is due nothing was claimed. -/
theorem Standing.unclaimed (hs : Standing goal window s) (hdue : RefundDue goal window s now) :
    s.claimed = some false := by
  obtain ⟨claimed, hclaimed⟩ := Option.isSome_iff_exists.mp hs.claimed_isSome
  cases claimed with
  | false => exact hclaimed
  | true =>
    obtain ⟨hgoing, hmet⟩ := hs.claimed_met hclaimed
    rcases hdue with hcancelled | ⟨deadline, total, _, htotal, ⟨_, hbelow⟩ | ⟨_, hopen⟩⟩
    · rw [hgoing] at hcancelled
      cases hcancelled
    · have hle := hmet total htotal
      omega
    · exact hopen

theorem refund_succeeds {env : Env} {pledger : Address} (hs : Standing goal window s)
    (hbacked : Backed house creator token now s) (hdue : RefundDue goal window s env.sequence)
    (hauth : pledger ∈ env.auths) (hpledge : 0 < entry s.pledges pledger)
    (hempty : ledger token house = 0)
    (hpays : env.tokens.Pays ledger s.transfers token house) :
    refund house env pledger s = .ok { s with
      pledges := s.pledges.erase pledger,
      transfers := s.transfers ++ [⟨.refund, token, house, pledger, entry s.pledges pledger⟩] } := by
  have hopen := hs.unclaimed hdue
  obtain ⟨cancelled, hcancelled⟩ := Option.isSome_iff_exists.mp hs.cancelled_isSome
  obtain ⟨deadline, hdeadline⟩ := Option.isSome_iff_exists.mp hs.deadline_isSome
  have hnonneg : NonnegEntries s.pledges := fun p v hv => le_of_lt (hbacked.pledge_ok p v hv).1
  have hcovered : entry s.pledges pledger ≤ replay ledger s.transfers token house := by
    rw [replay_eq_gain, hempty, hbacked.gain_open hopen, zero_add]
    exact hnonneg.entry_le_total pledger
  have haccepts := hpays ⟨.refund, token, house, pledger, entry s.pledges pledger⟩ rfl rfl
    (le_of_lt hpledge) hcovered
  have hreached : ¬ (¬ (cancelled = true) ∧ env.sequence ≤ deadline) := by
    rintro ⟨hgoing, hearly⟩
    rcases hdue with hdue | ⟨other, _, hother, _, hlate⟩
    · rw [hcancelled] at hdue
      exact hgoing (Option.some.inj hdue)
    · rw [hdeadline] at hother
      cases hother
      omega
  have hexpired : requireClaimExpired env cancelled false deadline goal
      (total s.pledges + refunded s.transfers) s = .ok () := by
    unfold requireClaimExpired
    split
    · next hmet =>
      rcases hdue with hdue | ⟨other, _, hother, htotal, hlate⟩
      · rw [hcancelled] at hdue
        exact absurd (Option.some.inj hdue) hmet.1
      · rw [hdeadline] at hother
        cases hother
        obtain rfl := hbacked.total_unique htotal
        have hpassed : saturatingAddU32 deadline window < env.sequence := by
          unfold saturatingAddU32
          omega
        simp only [hs.window_eq, Option.getD_some, bind_eq_ok, rejectIf_eq_ok, Bool.false_eq_true,
          not_false_eq_true, exists_const, true_and, not_le]
        exact hpassed
    · rfl
  simp only [refund, getInstance, hbacked.creator_eq, hcancelled, hdeadline, hs.goal_eq,
    hbacked.total_eq, hopen, hbacked.token_eq, okOr, ok_bind, rejectIf_neg hreached, hexpired,
    requireAuth, trapUnless, hauth, if_true, rejectIf_neg (not_le.mpr hpledge), callTransfer,
    recordTransfer, haccepts]
  rfl

end Steps

theorem initializeCampaign_standing {creator token : Address} {env : Env} {goal : ℤ} {deadline : ℕ}
    {tiers : List FundingTier} {maxPledgePerAddress : Option ℤ} {claimWindow : Option ℕ} {s : State}
    (h : initializeCampaign env creator token goal deadline tiers maxPledgePerAddress claimWindow
      State.empty = .ok s) : Standing goal (claimWindow.getD defaultClaimWindow) s := by
  simp only [initializeCampaign, bind_eq_ok, pure_eq_ok] at h
  obtain ⟨_, _, _, _, _, _, _, _, _, _, _, _, rfl⟩ := h
  exact ⟨rfl, rfl, rfl, rfl, rfl, fun hclaimed => by cases hclaimed⟩

/-- In every run without a claim of a cancelled campaign and without one after the claim window:
    the creator is paid only for a campaign that succeeded, within the window, and whenever a
    refund is due every pledger with a pledge is refunded all of it. -/
theorem all_or_nothing (house creator token : Address) (goal : ℤ) (deadline : ℕ)
    (tiers : List FundingTier) (maxPledgePerAddress : Option ℤ) (claimWindow : Option ℕ)
    (i₀ : Invocation house) (s : State)
    (hcall : i₀.call = .initializeCampaign creator token goal deadline tiers maxPledgePerAddress
      claimWindow)
    (hinit : exec i₀ State.empty = .ok s) (is : List (Invocation house))
    (htime : (i₀ :: is).Pairwise (fun i j => i.sequence ≤ j.sequence)) (ledger : Ledger)
    (hempty : ledger token house = 0)
    (hhonest : ∀ i ∈ is, i.tokens.NoOverdraft ledger token house)
    (hdue : ∀ e ∈ history exec s is, ¬ ClaimsForfeited e.before e.invocation) :
    (∀ e ∈ history exec s is, e.invocation.call = .claim →
      e.before.cancelled = some false ∧ ∃ deadline totalPledged,
        e.before.deadline = some deadline ∧ e.before.totalPledged = some totalPledged ∧
        goal ≤ totalPledged ∧ deadline < e.invocation.sequence ∧
        e.invocation.sequence ≤ deadline + claimWindow.getD defaultClaimWindow) ∧
    ∀ pledger, 0 < entry (run s is).pledges pledger → ∀ j : Invocation house,
      j.call = .refund pledger → pledger ∈ j.auths →
      RefundDue goal (claimWindow.getD defaultClaimWindow) (run s is) j.sequence →
      j.tokens.Pays ledger (run s is).transfers token house →
      exec j (run s is) = .ok { run s is with
        pledges := (run s is).pledges.erase pledger,
        transfers := (run s is).transfers ++
          [⟨.refund, token, house, pledger, entry (run s is).pledges pledger⟩] } := by
  have hstart : creator ∈ i₀.auths ∧ Backed house creator token i₀.sequence s ∧
      Standing goal (claimWindow.getD defaultClaimWindow) s := by
    unfold exec at hinit
    rw [hcall] at hinit
    obtain ⟨hauth, hbacked⟩ := initializeCampaign_backed hinit
    exact ⟨hauth, hbacked, initializeCampaign_standing hinit⟩
  have hcreator : creator ≠ house := by
    rintro rfl
    exact i₀.outside hstart.1
  obtain ⟨hfirst, htime⟩ := List.pairwise_cons.mp htime
  have halong := (along_of_history (Q := fun s (i : Invocation house) => ¬ ClaimsForfeited s i) hdue).and_forall hhonest
  let Inv : ℕ → List (Entry State (Invocation house)) → State → Prop := fun now _ s =>
    Backed house creator token now s ∧ Standing goal (claimWindow.getD defaultClaimWindow) s
  have hlater : ∀ now later past s, now ≤ later → Inv now past s → Inv later past s :=
    fun _ _ _ _ hle hs => ⟨hs.1.later hle, hs.2⟩
  have hstep : ∀ past s (i : Invocation house) t, Inv i.sequence past s →
      ((∀ t, exec i s = .ok t → ¬ ClaimsForfeited s i) ∧
        i.tokens.NoOverdraft ledger token house) → exec i s = .ok t →
      Inv i.sequence (past ++ [⟨s, i, t⟩]) t :=
    fun _ _ _ _ hs hi hok => ⟨(exec_backed hs.1 hcreator hempty hi.2 hok).1,
      exec_standing hs.2 hs.1 (hi.1 _ hok) hok⟩
  constructor
  · intro e he hclaim
    obtain ⟨past, later, hsplit⟩ := List.append_of_mem he
    obtain ⟨⟨hbacked, hstanding⟩, hi, hok⟩ := history_split_timed
      (fun i : Invocation house => i.sequence) hlater hstep hstart.2 halong hfirst htime hsplit
    have hforfeit := hi.1 _ hok
    have hgoing : e.before.cancelled = some false := by
      obtain ⟨cancelled, hcancelled⟩ := Option.isSome_iff_exists.mp hstanding.cancelled_isSome
      cases cancelled with
      | false => exact hcancelled
      | true => exact absurd ⟨hclaim, .inl hcancelled⟩ hforfeit
    cases exec_move hok with
    | initialized hnone =>
      rw [hbacked.creator_eq] at hnone
      cases hnone
    | claimed payee other totalPledged deadline _ _ hdeadline hlate _ _ htotal hmet _ _ =>
      refine ⟨hgoing, deadline, totalPledged, hdeadline, htotal, hmet goal hstanding.goal_eq, hlate, ?_⟩
      by_contra hover
      exact hforfeit ⟨hclaim, .inr ⟨deadline, _, hdeadline, hstanding.window_eq, by omega⟩⟩
    | pledged _ _ _ _ _ hne => exact absurd hclaim hne
    | withdrawn _ _ _ _ hne => exact absurd hclaim hne
    | refunded _ _ hcalled => rcases hcalled with ⟨_, h⟩ | ⟨_, h⟩ <;> simp [h] at hclaim
    | extended _ _ hne => exact absurd hclaim hne
    | cancelled _ hcalled => simp [hcalled] at hclaim
  · intro pledger hpledge j hj hauth hrefund hpays
    obtain ⟨now, hbacked, hstanding⟩ := history_invariant_timed
      (fun i : Invocation house => i.sequence) hlater hstep hstart.2 halong hfirst htime
    unfold exec
    rw [hj]
    exact refund_succeeds hstanding hbacked hrefund hauth hpledge hempty hpays

/-- Alice pledges the goal and the creator cancels the campaign. -/
def demoCancelled : List (Invocation demoHouse) :=
  [demoCall 2 (.pledge demoAlice 100 none), demoCall 3 .cancelCampaign]

theorem all_or_nothing_demo :
    exec (demoCall 4 (.refund demoAlice)) (run (run State.empty [demoInitialize]) demoCancelled) =
      .ok { run (run State.empty [demoInitialize]) demoCancelled with
        pledges := (run (run State.empty [demoInitialize]) demoCancelled).pledges.erase demoAlice,
        transfers := (run (run State.empty [demoInitialize]) demoCancelled).transfers ++
          [⟨.refund, demoToken, demoHouse, demoAlice,
            entry (run (run State.empty [demoInitialize]) demoCancelled).pledges demoAlice⟩] } := by
  have hunclaimed : ∀ e ∈ history exec (run State.empty [demoInitialize]) demoCancelled,
      ¬ ClaimsForfeited e.before e.invocation := by
    rintro e he ⟨hclaim, _⟩
    have hcalls : ∀ i ∈ demoCancelled, i.call ≠ .claim := by simp [demoCancelled, demoCall]
    exact hcalls _ (mem_of_mem_history he) hclaim
  have houtcome := all_or_nothing demoHouse demoCreator demoToken 100 10 [] none none demoInitialize
    (run State.empty [demoInitialize]) rfl rfl demoCancelled (by decide) demoLedger rfl
    (by simp [demoCancelled, demoCall, honestReplies_noOverdraft]) hunclaimed
  exact houtcome.2 demoAlice (by decide +kernel) (demoCall 4 (.refund demoAlice)) rfl (by decide)
    (.inl rfl) (honestReplies_pays _ _ _ _)

/-- A cancelled campaign is claimed, and so is one whose claim window of 5 ledgers has passed;
    after either claim Alice gets nothing back. -/
theorem forfeited_campaign_claimed :
    let cancelled := run (run State.empty [demoInitialize]) (demoCancelled ++ [demoCall 11 .claim])
    let expired := run (run State.empty [demoCall 1 (.initializeCampaign demoCreator demoToken 100 10
      [] none (some 5))]) [demoCall 2 (.pledge demoAlice 100 none), demoCall 16 .claim]
    (cancelled.cancelled = some true ∧ cancelled.claimed = some true ∧
      entry cancelled.pledges demoAlice = 100 ∧
      (exec (demoCall 12 (.refund demoAlice)) cancelled).toOption.isNone) ∧
    expired.claimed = some true ∧ entry expired.pledges demoAlice = 100 ∧
      (exec (demoCall 17 (.refund demoAlice)) expired).toOption.isNone := by
  decide +kernel

end SorobanKit.Crowdfund
