import Mathlib.Data.Fintype.EquivFin
import SorobanKit.CrowdfundReserve

set_option autoImplicit false

/-!
# What the pool still owes can be paid

From the reserve: refunds are covered, the claim of a campaign that succeeded is, and nothing that
the contract holds is stuck in it. A pledge in another token would be.
-/
namespace SorobanKit.Crowdfund
open HostBalances HostInteger HostInvocation HostRuns HostTransfers

section Payments
variable {house creator token : Address} {goal : ℤ} {now : ℕ} {ledger : Ledger} {s t : State}

theorem claim_succeeds {env : Env} (hs : Reserved house creator token goal now s)
    (hauth : creator ∈ env.auths) (hsucceeded : Succeeded s env.sequence)
    (hopen : s.claimed = some false) (hintact : Intact s.transfers) (hempty : ledger token house = 0)
    (hnonneg : 0 ≤ goal) (hpays : env.tokens.Pays ledger s.transfers token house) :
    ∃ total, s.totalPledged = some total ∧ claim house env s = .ok { s with
      claimed := some true,
      transfers := s.transfers ++ [⟨.claim, token, house, creator, total⟩] } := by
  obtain ⟨hgoing, ⟨deadline, hdeadline, hlate⟩, goal', hgoal, totalPledged, htotal, hmet⟩ := hsucceeded
  rw [Option.mem_def] at hdeadline htotal
  rw [Option.mem_def, hs.goal_eq] at hgoal
  cases hgoal
  have hrefunded : refunded s.transfers = 0 :=
    (hs.unrefunded hgoing hintact).resolve_right fun hmissed =>
      hmissed.2 ⟨goal, hs.goal_eq, totalPledged, htotal, hmet⟩
  have hgain : gain token house s.transfers = totalPledged := by
    rw [hs.total_unique htotal, paidOut_of_intact hintact, hrefunded, add_zero]
  have haccepts := hpays ⟨.claim, token, house, creator, totalPledged⟩ rfl rfl
    (show 0 ≤ totalPledged by omega) (by rw [replay_eq_gain, hempty, hgain, zero_add])
  refine ⟨totalPledged, htotal, ?_⟩
  simp only [claim, getInstance, hs.creator_eq, hdeadline, hs.goal_eq, htotal, hopen, hs.token_eq,
    okOr, ok_bind, rejectIf_neg (not_le.mpr hlate), rejectIf_neg (not_lt.mpr hmet), requireAuth,
    trapUnless, hauth, if_true, callTransfer, recordTransfer, haccepts]
  rfl

theorem refundOne_pays {env : Env} (hempty : ledger token house = 0)
    (htokens : env.tokens = honestReplies ledger) {pledger : Address}
    (hpos : ∀ p v, s.pledges.lookup p = some v → 0 < v) (hspare : spare token house s = 0)
    (hpledge : 0 < entry s.pledges pledger) (hne : pledger ≠ house) :
    ∃ t, refundOne house env token s pledger = .ok t ∧ t.pledges = s.pledges.erase pledger ∧
      t.transfers =
        s.transfers ++ [⟨.refund, token, house, pledger, entry s.pledges pledger⟩] ∧
      spare token house t = 0 := by
  have hnonneg : NonnegEntries s.pledges := fun p v hv => le_of_lt (hpos p v hv)
  have hcovered : entry s.pledges pledger ≤ replay ledger s.transfers token house := by
    have hle := hnonneg.entry_le_total pledger
    unfold spare at hspare
    rw [replay_eq_gain, hempty]
    omega
  let x : Transfer Purpose := ⟨.refund, token, house, pledger, entry s.pledges pledger⟩
  have haccepts : env.tokens.accepts s.transfers x := by
    rw [htokens]
    exact honestReplies_pays ledger s.transfers token house x rfl rfl (le_of_lt hpledge) hcovered
  refine ⟨{ s with pledges := s.pledges.erase pledger, transfers := s.transfers ++ [x] },
    ?_, rfl, rfl, ?_⟩
  · unfold refundOne
    rw [if_pos hpledge]
    exact recordTransfer_accepted haccepts
  · unfold spare at hspare ⊢
    dsimp only [x]
    rw [gain_append, gain_outgoing _ _ hne, total_erase]
    omega

/-- Refunds to all of `pledgers` are paid when the contract holds exactly the pledges. -/
theorem refundAll_pays {env : Env} (hempty : ledger token house = 0)
    (htokens : env.tokens = honestReplies ledger) {pledgers : List Address}
    (hhouse : entry s.pledges house = 0) (hpos : ∀ p v, s.pledges.lookup p = some v → 0 < v)
    (hspare : spare token house s = 0) :
    ∃ t paid, pledgers.foldlM (refundOne house env token) s = .ok t ∧
      t.transfers = s.transfers ++ paid ∧
      (∀ x ∈ paid, x.token = token ∧ x.source = house ∧ x.purpose = .refund ∧ 0 < x.amount ∧
        x.amount = entry s.pledges x.target) ∧
      spare token house t = 0 ∧
      ∀ p, t.pledges.lookup p = if p ∈ pledgers then none else s.pledges.lookup p := by
  induction pledgers generalizing s with
  | nil => exact ⟨s, [], rfl, by simp, by simp, hspare, by simp⟩
  | cons pledger rest ih =>
    by_cases hpledge : 0 < entry s.pledges pledger
    · have hne : pledger ≠ house := by
        rintro rfl
        omega
      obtain ⟨s₁, hone, hpledges, hlog₁, hspare₁⟩ :=
        refundOne_pays hempty htokens hpos hspare hpledge hne
      have hhouse₁ : entry s₁.pledges house = 0 := by
        rw [hpledges, entry_erase_of_ne _ (Ne.symm hne)]
        exact hhouse
      have hpos₁ : ∀ p v, s₁.pledges.lookup p = some v → 0 < v := by
        intro p v hv
        rw [hpledges] at hv
        exact hpos p v (of_lookup_erase hv).2
      obtain ⟨t, paid, hrest, hlog, hpaid, hafter, hgone⟩ := ih hhouse₁ hpos₁ hspare₁
      refine ⟨t, ⟨.refund, token, house, pledger, entry s.pledges pledger⟩ :: paid, ?_, ?_, ?_, hafter,
        fun p => ?_⟩
      · rw [List.foldlM_cons, hone, ok_bind]
        exact hrest
      · rw [hlog, hlog₁, ← List.append_cons]
      · refine List.forall_mem_cons.mpr ⟨⟨rfl, rfl, rfl, hpledge, rfl⟩, fun y hy => ?_⟩
        obtain ⟨htoken, hsource, hpurpose, hypos, hamount⟩ := hpaid y hy
        rw [hpledges] at hamount
        have hother : y.target ≠ pledger := by
          intro heq
          rw [heq, entry_erase_self] at hamount
          omega
        rw [entry_erase_of_ne _ hother] at hamount
        exact ⟨htoken, hsource, hpurpose, hypos, hamount⟩
      · rw [hgone p, hpledges, lookup_erase_ite]
        by_cases hp : p = pledger
        · simp [hp]
        · simp [hp]
    · obtain ⟨t, paid, hrest, hlog, hpaid, hafter, hgone⟩ := ih hhouse hpos hspare
      refine ⟨t, paid, ?_, hlog, hpaid, hafter, fun p => ?_⟩
      · rw [List.foldlM_cons, refundOne, if_neg hpledge]
        exact hrest
      · rw [hgone p]
        by_cases hp : p = pledger
        · subst hp
          have hnone : s.pledges.lookup p = none := by
            cases hv : s.pledges.lookup p with
            | none => rfl
            | some v =>
              have hv' := hpos p v hv
              simp only [entry, hv, Option.getD_some] at hpledge
              omega
          simp [hnone]
        · simp [hp]

/-- The contract can pay out all it holds of every token, to the creator or back to pledgers. -/
def Emptiable (house creator : Address) (ledger : Ledger) (n : ℕ) (c : Campaign) : Prop :=
  ∃ (js : List (CampaignInvocation house)) (paid : List (Transfer Purpose)),
    (∀ j ∈ js, j.sequence = n ∧ j.tokens = honestReplies ledger) ∧
    (runCampaign c js).transfers = c.transfers ++ paid ∧
    (∀ x ∈ paid, x.source = house ∧ (x.target = creator ∨
      (x.purpose = .refund ∧ x.amount = entry c.pledges x.target))) ∧
    ∀ other, replay ledger (runCampaign c js).transfers other house = 0

theorem emptiable_by_milestone {c : Campaign}
    (hs : Reserved house creator token goal now c.toState) (hcreator : creator ≠ house)
    (hempty : ∀ other, ledger other house = 0) (hgoing : c.cancelled = some false) (n : ℕ) :
    Emptiable house creator ledger n c := by
  obtain ⟨milestoneId, hnew⟩ := Infinite.exists_notMem_finset c.milestoneReleased.keys
  have hunreleased : c.milestoneReleased.lookup milestoneId = none :=
    Finmap.lookup_eq_none.mpr fun h => hnew (Finmap.mem_keys.mpr h)
  have hauth : creator ∈ [creator] := List.mem_singleton_self creator
  have houtside : house ∉ [creator] := fun h => hcreator (List.mem_singleton.mp h).symm
  let env : Env := ⟨⟨n, [creator]⟩, honestReplies ledger⟩
  let x : Transfer Purpose :=
    ⟨.milestone, token, house, creator, gain token house c.transfers⟩
  let all : Milestone := ⟨milestoneId, gain token house c.transfers, "", 0⟩
  let c₁ : Campaign := { c with milestones := some [all] }
  let c₂ : Campaign := { c₁ with
    milestoneReleased := c.milestoneReleased.insert milestoneId true,
    transfers := c.transfers ++ [x] }
  have hset : execCampaign (⟨env, .setMilestones [all], houtside⟩ : CampaignInvocation house) c =
      .ok c₁ := by
    simp only [execCampaign, setMilestones, getInstance, hs.creator_eq, hgoing, okOr, ok_bind,
      requireAuth, trapUnless, env, hauth, if_true, rejectIf, Bool.false_eq_true, if_false]
    rfl
  have haccepts : env.tokens.accepts c.transfers x := by
    refine honestReplies_pays ledger c.transfers token house x rfl rfl hs.held_nonneg ?_
    rw [replay_eq_gain, hempty token, zero_add]
  have hrelease : execCampaign (⟨env, .releaseMilestone milestoneId, houtside⟩ :
      CampaignInvocation house) c₁ = .ok c₂ := by
    have hfind : findMilestone milestoneId c₁ = .ok all := by
      simp [findMilestone, c₁, all, okOr]
    have hcreator₁ : c₁.creator = some creator := hs.creator_eq
    have htoken₁ : c₁.token = some token := hs.token_eq
    have hunreleased₁ : c₁.milestoneReleased.lookup milestoneId = none := hunreleased
    have haccepts₁ : env.tokens.accepts c₁.transfers x := haccepts
    simp only [execCampaign, releaseMilestone, hfind, ok_bind, getInstance, hcreator₁, htoken₁, okOr,
      requireAuth, trapUnless, env, hauth, if_true, hunreleased₁, Option.getD_none, rejectIf,
      Bool.false_eq_true, if_false]
    unfold Campaign.callTransfer callTransfer recordTransfer trapUnless
    rw [if_pos haccepts₁]
    rfl
  refine ⟨[⟨env, .setMilestones [all], houtside⟩, ⟨env, .releaseMilestone milestoneId, houtside⟩], [x],
    ?_, ?_, ?_, fun other => ?_⟩
  · simp [env]
  · rw [runCampaign, run_cons_of_ok hset, run_cons_of_ok hrelease]
    rfl
  · simp [x]
  · rw [runCampaign, run_cons_of_ok hset, run_cons_of_ok hrelease, run_nil, replay_eq_gain, hempty]
    dsimp only [c₂, c₁, x]
    rw [gain_append]
    by_cases hother : other = token
    · rw [hother, gain_outgoing _ _ hcreator]
      omega
    · rw [hs.foreign other hother, gain_other_token (Ne.symm hother)]
      omega

theorem emptiable_by_refunds {c : Campaign}
    (hs : Reserved house creator token goal now c.toState) (hempty : ∀ other, ledger other house = 0)
    (hcancelled : c.cancelled = some true) (n : ℕ) : Emptiable house creator ledger n c := by
  let env : Env := ⟨⟨n, []⟩, honestReplies ledger⟩
  let pledgers := c.pledges.keys.toList
  have htokens : env.tokens = honestReplies ledger := rfl
  obtain ⟨t, paid, hall, hlog, hpaid, hspare, hgone⟩ : ∃ t paid,
      pledgers.foldlM (refundOne house env token) c.toState = .ok t ∧ _ :=
    refundAll_pays (hempty token) htokens hs.house_none hs.pledge_pos (hs.cancelled_spare hcancelled)
  obtain ⟨deadline, hdeadline⟩ := Option.isSome_iff_exists.mp hs.deadline_isSome
  have hbatch : execCampaign (⟨env, .funding (.refundBatch pledgers), List.not_mem_nil⟩ :
      CampaignInvocation house) c = .ok { c with toState := t } := by
    simp only [execCampaign, exec, CampaignInvocation.fund, refundBatch, getInstance, hs.creator_eq,
      hcancelled, hdeadline, hs.goal_eq, hs.total_eq, hs.token_eq, okOr, ok_bind, rejectIf,
      not_true_eq_false, false_and, if_false]
    rw [hall]
    rfl
  have hnone : t.pledges = ∅ := by
    apply Finmap.ext_lookup
    intro p
    rw [hgone p, Finmap.lookup_empty]
    split
    · rfl
    · next hp =>
      refine Finmap.lookup_eq_none.mpr fun hmem => hp ?_
      exact Finset.mem_toList.mpr (Finmap.mem_keys.mpr hmem)
  refine ⟨[⟨env, .funding (.refundBatch pledgers), List.not_mem_nil⟩], paid, ?_, ?_, fun x hx => ?_,
    fun other => ?_⟩
  · simp [env]
  · rw [runCampaign, run_cons_of_ok hbatch]
    exact hlog
  · obtain ⟨_, hsource, hpurpose, _, hamount⟩ := hpaid x hx
    exact ⟨hsource, .inr ⟨hpurpose, hamount⟩⟩
  · rw [runCampaign, run_cons_of_ok hbatch, run_nil, replay_eq_gain, hempty, zero_add]
    change gain other house t.transfers = 0
    by_cases hother : other = token
    · have hzero : total (∅ : Balances Address) = 0 := rfl
      rw [spare, hnone, hzero, sub_zero] at hspare
      rw [hother]
      exact hspare
    · have hpaid_none : gain other house paid = 0 := by
        have hreceived : received other house paid = 0 := sumOf_eq_zero fun x hx => by
          simp [(hpaid x hx).1, Ne.symm hother]
        have hsent : sent other house paid = 0 := sumOf_eq_zero fun x hx => by
          simp [(hpaid x hx).1, Ne.symm hother]
        rw [gain, hreceived, hsent, sub_zero]
      rw [hlog, gain_append, hs.foreign other hother, hpaid_none, add_zero]

/-- What was pledged in another token stays in the contract. -/
structure Held (house token other : Address) (floor : ℤ) (s : State) : Prop where
  creator_isSome : s.creator.isSome
  token_eq : s.token = some token
  floor_le : floor ≤ gain other house s.transfers

variable {other : Address} {floor : ℤ}

theorem Held.appended (hs : Held house token other floor s) {x : Transfer Purpose}
    (hx : 0 ≤ gain other house [x]) :
    floor ≤ gain other house (s.transfers ++ [x]) := by
  have hfloor := hs.floor_le
  rw [gain_append]
  omega

theorem refundAll_held {env : Env} {pledgers : List Address} (hother : other ≠ token)
    (hs : Held house token other floor s)
    (h : pledgers.foldlM (refundOne house env token) s = .ok t) :
    Held house token other floor t := by
  induction pledgers generalizing s with
  | nil =>
    rw [List.foldlM_nil, pure_eq_ok] at h
    rw [← h]
    exact hs
  | cons pledger rest ih =>
    rw [List.foldlM_cons, bind_eq_ok] at h
    obtain ⟨s₁, hone, h⟩ := h
    refine ih ?_ h
    unfold refundOne at hone
    dsimp only at hone
    split at hone
    · obtain ⟨_, rfl⟩ := recordTransfer_eq_ok.mp hone
      exact { hs with floor_le := hs.appended (by rw [gain_other_token (Ne.symm hother)]) }
    · rw [pure_eq_ok] at hone
      rw [← hone]
      exact hs

theorem execCampaign_held {i : CampaignInvocation house} {c d : Campaign} (hother : other ≠ token)
    (hs : Held house token other floor c.toState) (h : execCampaign i c = .ok d) :
    Held house token other floor d.toState := by
  have hunique : ∀ {paid}, c.token = some paid → paid ≠ other := by
    intro paid hpaid
    rw [hs.token_eq] at hpaid
    cases hpaid
    exact Ne.symm hother
  cases execCampaign_move h with
  | funded call _ hok =>
    cases exec_move hok with
    | initialized hnone =>
      have hcreator := hs.creator_isSome
      rw [hnone] at hcreator
      cases hcreator
    | pledged _ paid _ _ _ _ _ _ _ _ _ _ htoken _ h =>
      rw [h]
      exact { hs with floor_le := hs.appended (by rw [gain_other_token (hunique htoken)]) }
    | withdrawn _ paid _ _ _ _ _ _ _ _ htoken _ h =>
      rw [h]
      exact { hs with floor_le := hs.appended (by rw [gain_other_token (hunique htoken)]) }
    | refunded pledgers paid _ _ htoken h =>
      rw [hs.token_eq] at htoken
      cases htoken
      exact refundAll_held hother hs h
    | claimed _ paid _ _ _ _ _ _ _ htoken _ _ _ h =>
      rw [h]
      exact { hs with floor_le := hs.appended (by rw [gain_other_token (hunique htoken)]) }
    | extended _ _ _ _ _ h =>
      rw [h]
      exact { hs with }
    | cancelled _ _ _ _ h =>
      rw [h]
      exact { hs with }
  | noted _ h =>
    rw [h]
    exact hs
  | released _ paid _ _ _ _ htoken _ h =>
    rw [h]
    exact { hs with floor_le := hs.appended (by rw [gain_other_token (hunique htoken)]) }
  | pledged pledger paid amount _ _ _ hamount _ _ hauth _ h =>
    have hne : pledger ≠ house := by
      rintro rfl
      exact i.outside hauth
    rw [h]
    refine { hs with floor_le := hs.appended ?_ }
    rw [gain_incoming_ite _ _ _ hne]
    split <;> omega

theorem other_token_kept {c : Campaign} (hcreator : c.creator.isSome) (htoken : c.token = some token)
    (hother : other ≠ token) (js : List (CampaignInvocation house)) :
    gain other house c.transfers ≤ gain other house (runCampaign c js).transfers :=
  (run_invariant (I := fun d : Campaign =>
      Held house token other (gain other house c.transfers) d.toState)
    (fun _ _ _ hs hok => execCampaign_held hother hs hok) ⟨hcreator, htoken, le_refl _⟩ js).floor_le

end Payments

theorem initializeCampaign_reserved {house creator token : Address} {env : Env} {goal : ℤ}
    {deadline : ℕ} {tiers : List FundingTier} {maxPledgePerAddress : Option ℤ}
    {claimWindow : Option ℕ} {s : State} (h : initializeCampaign env creator token goal deadline tiers
      maxPledgePerAddress claimWindow State.empty = .ok s) :
    creator ∈ env.auths ∧ 0 < goal ∧ Reserved house creator token goal env.sequence s := by
  simp only [initializeCampaign, bind_eq_ok, rejectIf_eq_ok, requireAuth_eq_ok, pure_eq_ok,
    not_le] at h
  obtain ⟨_, _, _, hgoal, _, _, _, _, _, _, _, hauth, rfl⟩ := h
  exact ⟨hauth, hgoal, rfl, rfl, rfl, rfl, rfl, rfl, fun p v hv => by simp [State.empty] at hv,
    fun _ _ => rfl, rfl, le_refl 0, .inr (le_refl 0), fun _ => rfl, fun _ _ => .inl rfl⟩

/-- In every run that does not mishandle the pool, at non-decreasing ledgers with an honest token:
    where refunds are permitted the contract holds the pledges; where the campaign succeeded and
    nothing was paid out its claim succeeds; and all that the contract holds, of any token, can be
    paid to the creator or back to pledgers. -/
theorem funds_backed (house creator token : Address) (goal : ℤ) (deadline : ℕ)
    (tiers : List FundingTier) (maxPledgePerAddress : Option ℤ) (claimWindow : Option ℕ)
    (i₀ : CampaignInvocation house) (c : Campaign)
    (hcall : i₀.call = .funding (.initializeCampaign creator token goal deadline tiers
      maxPledgePerAddress claimWindow))
    (hinit : execCampaign i₀ Campaign.empty = .ok c) (is : List (CampaignInvocation house))
    (htime : (i₀ :: is).Pairwise (fun i j => i.sequence ≤ j.sequence)) (ledger : Ledger)
    (hempty : ∀ other, ledger other house = 0)
    (hhonest : ∀ i ∈ is, i.tokens.NoOverdraft ledger token house ∧ i.tokens.RejectsNegative token)
    (hcalls : ∀ e ∈ history execCampaign c is, ¬ Mishandles token e.before e.invocation) :
    (∀ now, ((runCampaign c is).cancelled = some true ∨ Missed (runCampaign c is).toState now) →
      total (runCampaign c is).pledges ≤
        replay ledger (runCampaign c is).transfers token house) ∧
    (∀ j : CampaignInvocation house, j.call = .funding .claim → creator ∈ j.auths →
      Succeeded (runCampaign c is).toState j.sequence → (runCampaign c is).claimed = some false →
      Intact (runCampaign c is).transfers →
      j.tokens.Pays ledger (runCampaign c is).transfers token house →
      ∃ totalPledged, (runCampaign c is).totalPledged = some totalPledged ∧
        execCampaign j (runCampaign c is) = .ok { runCampaign c is with
          claimed := some true,
          transfers := (runCampaign c is).transfers ++
            [⟨.claim, token, house, creator, totalPledged⟩] }) ∧
    ∀ n, Emptiable house creator ledger n (runCampaign c is) := by
  have hstart : creator ∈ i₀.auths ∧ 0 < goal ∧
      Reserved house creator token goal i₀.sequence c.toState := by
    simp only [execCampaign, hcall, bind_eq_ok, pure_eq_ok] at hinit
    obtain ⟨s, hs, rfl⟩ := hinit
    exact initializeCampaign_reserved hs
  obtain ⟨hauth, hgoal, hreserved⟩ := hstart
  have hcreator : creator ≠ house := by
    rintro rfl
    exact i₀.outside hauth
  obtain ⟨hfirst, htime⟩ := List.pairwise_cons.mp htime
  have halong := (along_of_history
    (Q := fun c (i : CampaignInvocation house) => ¬ Mishandles token c i) hcalls).and_forall hhonest
  have hlater : ∀ now later (past : List (Entry Campaign (CampaignInvocation house)))
      (c : Campaign), now ≤ later →
      Reserved house creator token goal now c.toState →
      Reserved house creator token goal later c.toState :=
    fun _ _ _ _ hle hs => hs.later hle
  obtain ⟨now, hrun⟩ := history_invariant_timed (fun i : CampaignInvocation house => i.sequence)
    (I := fun now _ c => Reserved house creator token goal now c.toState) hlater
    (fun _ _ _ _ hs hi hok => execCampaign_reserved hs hcreator (hempty token) hi.2.1 hi.2.2
      (hi.1 _ hok) hok)
    hreserved halong hfirst htime
  change Reserved house creator token goal now (runCampaign c is).toState at hrun
  refine ⟨fun n hpermitted => ?_, ?_, fun n => ?_⟩
  · have hcovered : 0 ≤ spare token house (runCampaign c is).toState := by
      rcases hrun.covered with ⟨hgoing, _, hmet⟩ | hcovered
      · rcases hpermitted with hcancelled | ⟨_, hbelow⟩
        · rw [hgoing] at hcancelled
          cases hcancelled
        · exact absurd hmet hbelow
      · exact hcovered
    unfold spare at hcovered
    rw [replay_eq_gain, hempty, zero_add]
    omega
  · intro j hj hauth hsucceeded hopen hintact hpays
    obtain ⟨totalPledged, htotal, hok⟩ := claim_succeeds hrun hauth hsucceeded hopen
      hintact (hempty token) (le_of_lt hgoal) hpays
    refine ⟨totalPledged, htotal, ?_⟩
    have hexec : exec (j.fund .claim) (runCampaign c is).toState = claim house j.toEnv
        (runCampaign c is).toState := rfl
    simp only [execCampaign, hj, hexec, hok, ok_bind]
    rfl
  · obtain ⟨cancelled, hcancelled⟩ := Option.isSome_iff_exists.mp hrun.cancelled_isSome
    cases cancelled with
    | false => exact emptiable_by_milestone hrun hcreator hempty hcancelled n
    | true => exact emptiable_by_refunds hrun hempty hcancelled n

def demoFund (sequence : ℕ) (call : CampaignCall) : CampaignInvocation demoHouse where
  toEnv := (demoCall sequence .claim).toEnv
  call := call
  outside := (demoCall sequence .claim).outside

def demoStart : CampaignInvocation demoHouse :=
  demoFund 1 (.funding (.initializeCampaign demoCreator demoToken 100 10 [] none none))

/-- Alice pledges 60, and Bob 40 of the main token through the whitelist. -/
def demoFunded : List (CampaignInvocation demoHouse) :=
  [demoFund 2 (.funding (.pledge demoAlice 60 none)),
    demoFund 3 (.whitelistTokens [demoToken] demoCreator),
    demoFund 4 (.pledgeWithToken demoBob demoToken 40)]

theorem funds_backed_demo :
    (execCampaign (demoFund 11 (.funding .claim))
        (runCampaign (runCampaign Campaign.empty [demoStart]) demoFunded)).toOption.isSome ∧
      Emptiable demoHouse demoCreator demoLedger 11
        (runCampaign (runCampaign Campaign.empty [demoStart]) demoFunded) := by
  have hbacked := funds_backed demoHouse demoCreator demoToken 100 10 [] none none demoStart
    (runCampaign Campaign.empty [demoStart]) rfl rfl demoFunded (by decide) demoLedger
    (fun _ => rfl)
    (by simp [demoFunded, demoFund, demoCall, honestReplies_noOverdraft,
      honestReplies_rejectsNegative])
    (by decide +kernel)
  obtain ⟨_, _, hclaim⟩ := hbacked.2.1 (demoFund 11 (.funding .claim)) rfl (by decide)
    (by decide +kernel) rfl (by decide +kernel) (honestReplies_pays _ _ _ _)
  refine ⟨?_, hbacked.2.2 11⟩
  rw [hclaim]
  rfl

/-- A milestone of 60 is released at ledger 4 from Alice's pledge, and the goal is missed. -/
def demoReleased : List (CampaignInvocation demoHouse) :=
  [demoFund 2 (.funding (.pledge demoAlice 60 none)), demoFund 3 (.setMilestones [⟨1, 60, "", 10⟩]),
    demoFund 4 (.releaseMilestone 1)]

def demoOther : Address := ⟨65⟩

/-- Bob pledges the whole goal in another token. -/
def demoWhitelisted : List (CampaignInvocation demoHouse) :=
  [demoFund 2 (.whitelistTokens [demoOther] demoCreator),
    demoFund 3 (.pledgeWithToken demoBob demoOther 100)]

/-- The released milestone leaves nothing for Alice's refund; the campaign that met its goal in
    another token cannot be claimed; and that token never leaves the contract. -/
theorem pool_misused :
    let released := runCampaign (runCampaign Campaign.empty [demoStart]) demoReleased
    let whitelisted := runCampaign (runCampaign Campaign.empty [demoStart]) demoWhitelisted
    (Missed released.toState 11 ∧ total released.pledges = 60 ∧
      replay demoLedger released.transfers demoToken demoHouse = 0) ∧
    (Succeeded whitelisted.toState 11 ∧ whitelisted.claimed = some false ∧
      Intact whitelisted.transfers ∧
      (execCampaign (demoFund 11 (.funding .claim)) whitelisted).toOption.isNone) ∧
    (entry whitelisted.tokenPledges (demoBob, demoOther) = 100 ∧
      ∀ js : List (CampaignInvocation demoHouse),
        100 ≤ replay demoLedger (runCampaign whitelisted js).transfers demoOther demoHouse) := by
  refine ⟨by decide +kernel, by decide +kernel, by decide +kernel, fun js => ?_⟩
  have hkept : gain demoOther demoHouse
        (runCampaign (runCampaign Campaign.empty [demoStart]) demoWhitelisted).transfers ≤
      gain demoOther demoHouse (runCampaign
        (runCampaign (runCampaign Campaign.empty [demoStart]) demoWhitelisted) js).transfers :=
    other_token_kept rfl rfl (by decide) js
  have hheld : gain demoOther demoHouse
      (runCampaign (runCampaign Campaign.empty [demoStart]) demoWhitelisted).transfers = 100 := by
    decide +kernel
  have hempty : demoLedger demoOther demoHouse = 0 := rfl
  rw [replay_eq_gain, hempty]
  omega

end SorobanKit.Crowdfund
