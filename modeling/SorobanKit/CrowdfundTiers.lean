import SorobanKit.CrowdfundCustody

set_option autoImplicit false

/-!
# The places of a tier

A tier with a limit counts its backers when they pledge, and nowhere else: the count is the number of
pledgers in the tier for as long as nobody in it withdraws, is refunded or takes another tier.
-/
namespace SorobanKit.Crowdfund
open HostBalances HostInteger HostInvocation HostRuns HostTransfers

def tierOf (s : State) (pledger : Address) : Option ℕ := (s.pledgeTier.lookup pledger).getD none

def backerLimit (s : State) (tid : ℕ) : Option ℕ := do
  let tiers ← s.tiers
  let tier ← tiers[tid]?
  tier.maxBackers

def backerCount (s : State) (tid : ℕ) : ℕ := (s.tierBackerCount.lookup tid).getD 0

/-- Who has a pledge in the tier. -/
def backers (s : State) (tid : ℕ) : Finset Address :=
  s.pledges.keys.filter fun pledger => 0 < entry s.pledges pledger ∧ tierOf s pledger = some tid

structure TiersKept (s : State) : Prop where
  counted : ∀ tid max, backerLimit s tid = some max → backerCount s tid = (backers s tid).card
  limited : ∀ tid max, backerLimit s tid = some max → (backers s tid).card ≤ max
  open_places : ∀ tid max, backerLimit s tid = some max → (backers s tid).card < max →
    ∀ pledger tier, tier.maxBackers = some max →
      countBacker pledger tid tier s ≠ .error (.error .tierCapacityExceeded)

/-- The pledger has no place in a limited tier. -/
def Unseated (s : State) (pledger : Address) : Prop :=
  ∀ tid ∈ tierOf s pledger, backerLimit s tid = none

/-- The calls by which nobody gives up a place in a limited tier. -/
def KeepsPlaces (s : State) : Call → Prop
  | .pledge pledger _ (some tid) => tierOf s pledger = some tid ∨ Unseated s pledger
  | .withdraw pledger | .refund pledger => Unseated s pledger
  | .refundBatch pledgers => ∀ pledger ∈ pledgers, 0 < entry s.pledges pledger → Unseated s pledger
  | _ => True

instance (s : State) (pledger : Address) : Decidable (Unseated s pledger) :=
  inferInstanceAs (Decidable (∀ tid ∈ tierOf s pledger, _))

instance (s : State) (call : Call) : Decidable (KeepsPlaces s call) := by
  cases call with
  | pledge pledger amount tierId =>
    cases tierId
    all_goals unfold KeepsPlaces; infer_instance
  | _ => unfold KeepsPlaces; infer_instance

/-- Whoever has no pledge has no place. -/
def Idle (s : State) : Prop := ∀ pledger, entry s.pledges pledger ≤ 0 → Unseated s pledger

structure Founded (s : State) : Prop where
  creator_some : s.creator.isSome
  positive : ∀ pledger pledge, s.pledges.lookup pledger = some pledge → 0 < pledge

section Backers
variable {s t : State} {tid max : ℕ} {pledger : Address}

theorem mem_backers : pledger ∈ backers s tid ↔
    0 < entry s.pledges pledger ∧ tierOf s pledger = some tid := by
  unfold backers
  rw [Finset.mem_filter]
  constructor
  · exact fun h => h.2
  · intro h
    refine ⟨?_, h⟩
    rw [Finmap.mem_keys]
    by_contra hnone
    have hzero : entry s.pledges pledger = 0 := by
      unfold entry
      rw [Finmap.lookup_eq_none.mpr hnone]
      rfl
    omega

theorem Founded.entry_nonneg (hs : Founded s) (pledger : Address) : 0 ≤ entry s.pledges pledger := by
  unfold entry
  cases hpledge : s.pledges.lookup pledger with
  | none => exact le_refl 0
  | some pledge => exact (hs.positive pledger pledge hpledge).le

theorem Idle.mem_backers_iff (hidle : Idle s) (hlimit : backerLimit s tid = some max) :
    pledger ∈ backers s tid ↔ tierOf s pledger = some tid := by
  rw [mem_backers]
  constructor
  · exact fun h => h.2
  · intro htier
    refine ⟨?_, htier⟩
    by_contra hnone
    have hunlimited := hidle pledger (not_lt.mp hnone) tid htier
    rw [hlimit] at hunlimited
    cases hunlimited

theorem countBacker_refused {tier : FundingTier} (hmax : tier.maxBackers = some max)
    (h : countBacker pledger tid tier s = .error (.error .tierCapacityExceeded)) :
    max ≤ backerCount s tid := by
  unfold countBacker at h
  rw [hmax] at h
  dsimp only at h
  rcases bind_eq_error.mp h with hfull | ⟨_, _, hrest⟩
  · exact (rejectIf_eq_error.mp hfull).1.2
  · split at hrest
    · cases hrest
    · rcases bind_eq_error.mp hrest with htrap | ⟨_, _, hdone⟩
      · cases (unwrap_eq_error.mp htrap).2
      · cases hdone

theorem TiersKept.of_counted
    (h : ∀ tid max, backerLimit s tid = some max →
      backerCount s tid = (backers s tid).card ∧ (backers s tid).card ≤ max) : TiersKept s := by
  constructor
  · exact fun tid max hlimit => (h tid max hlimit).1
  · exact fun tid max hlimit => (h tid max hlimit).2
  · intro tid max hlimit hroom pledger tier hmax hrefused
    have hfull := countBacker_refused hmax hrefused
    have hcount := (h tid max hlimit).1
    omega

end Backers

section Removal
variable {s t : State} {pledgers : List Address}

/-- The pledges of some pledgers are gone, and nothing else about the tiers. -/
structure Removed (pledgers : List Address) (s t : State) : Prop where
  entries : ∀ pledger, entry t.pledges pledger =
    if pledger ∈ pledgers then 0 else entry s.pledges pledger
  same_tiers : t.tiers = s.tiers
  same_tier : t.pledgeTier = s.pledgeTier
  same_count : t.tierBackerCount = s.tierBackerCount

theorem Removed.tierOf_eq (h : Removed pledgers s t) (pledger : Address) :
    tierOf t pledger = tierOf s pledger := by
  unfold tierOf
  rw [h.same_tier]

theorem Removed.backerLimit_eq (h : Removed pledgers s t) (tid : ℕ) :
    backerLimit t tid = backerLimit s tid := by
  unfold backerLimit
  rw [h.same_tiers]

theorem Removed.unseated_iff (h : Removed pledgers s t) (pledger : Address) :
    Unseated t pledger ↔ Unseated s pledger := by
  unfold Unseated
  rw [h.tierOf_eq]
  simp only [h.backerLimit_eq]

theorem Removed.backers_eq (h : Removed pledgers s t) (tid : ℕ) :
    backers t tid = (backers s tid).filter (· ∉ pledgers) := by
  ext pledger
  rw [Finset.mem_filter, mem_backers, mem_backers, h.entries, h.tierOf_eq]
  by_cases hmem : pledger ∈ pledgers
  · simp [hmem]
  · simp [hmem]

theorem Removed.kept_iff (h : Removed pledgers s t) (hs : TiersKept s) :
    TiersKept t ↔ ∀ pledger ∈ pledgers, 0 < entry s.pledges pledger → Unseated s pledger := by
  constructor
  · intro ht pledger hmem hpledge tid htier
    cases hlimit : backerLimit s tid with
    | none => rfl
    | some max =>
      have hcount := ht.counted tid max ((h.backerLimit_eq tid).trans hlimit)
      have hsame : backerCount t tid = backerCount s tid := by
        unfold backerCount
        rw [h.same_count]
      rw [hsame, hs.counted tid max hlimit, h.backers_eq] at hcount
      have hall := Finset.filter_eq_self.mp
        (Finset.eq_of_subset_of_card_le (Finset.filter_subset _ _) hcount.le)
      exact absurd hmem (hall pledger (mem_backers.mpr ⟨hpledge, htier⟩))
  · intro hunseated
    apply TiersKept.of_counted
    intro tid max hlimit
    rw [h.backerLimit_eq] at hlimit
    have hsame : backers t tid = backers s tid := by
      rw [h.backers_eq, Finset.filter_eq_self]
      intro pledger hbacker hmem
      obtain ⟨hpledge, htier⟩ := mem_backers.mp hbacker
      have hnone := hunseated pledger hmem hpledge tid htier
      rw [hlimit] at hnone
      cases hnone
    have hcount : backerCount t tid = backerCount s tid := by
      unfold backerCount
      rw [h.same_count]
    rw [hsame, hcount]
    exact ⟨hs.counted tid max hlimit, hs.limited tid max hlimit⟩

theorem Removed.idle (h : Removed pledgers s t) (hidle : Idle s)
    (hunseated : ∀ pledger ∈ pledgers, 0 < entry s.pledges pledger → Unseated s pledger) :
    Idle t := by
  intro pledger hnone
  rw [h.unseated_iff]
  rw [h.entries] at hnone
  by_cases hpledge : 0 < entry s.pledges pledger
  · apply hunseated pledger _ hpledge
    by_contra hmem
    rw [if_neg hmem] at hnone
    omega
  · exact hidle pledger (not_lt.mp hpledge)

theorem Removed.nobody (hpledges : t.pledges = s.pledges) (htiers : t.tiers = s.tiers)
    (htier : t.pledgeTier = s.pledgeTier) (hcount : t.tierBackerCount = s.tierBackerCount) :
    Removed [] s t := by
  refine ⟨fun other => ?_, htiers, htier, hcount⟩
  rw [hpledges]
  rfl

theorem Removed.erased (pledger : Address) (hpledges : t.pledges = s.pledges.erase pledger)
    (htiers : t.tiers = s.tiers) (htier : t.pledgeTier = s.pledgeTier)
    (hcount : t.tierBackerCount = s.tierBackerCount) : Removed [pledger] s t := by
  refine ⟨fun other => ?_, htiers, htier, hcount⟩
  rw [hpledges]
  by_cases hother : other = pledger
  · rw [hother, entry_erase_self, if_pos List.mem_cons_self]
  · rw [entry_erase_of_ne _ hother, if_neg (by simpa using hother)]

theorem Founded.erased (hs : Founded s) {pledger : Address}
    (hpledges : t.pledges = s.pledges.erase pledger) (hcreator : t.creator = s.creator) :
    Founded t := by
  constructor
  · rw [hcreator]
    exact hs.creator_some
  · intro other pledge h
    rw [hpledges] at h
    exact hs.positive other pledge (of_lookup_erase h).2

theorem refundOne_removed {house token pledger : Address} {env : Env} (hs : Founded s)
    (h : refundOne house env token s pledger = .ok t) : Removed [pledger] s t ∧ Founded t := by
  unfold refundOne at h
  dsimp only at h
  split at h
  · obtain ⟨_, rfl⟩ := recordTransfer_eq_ok.mp h
    exact ⟨.erased pledger rfl rfl rfl rfl, hs.erased rfl rfl⟩
  · next hnone =>
    rw [pure_eq_ok] at h
    subst h
    refine ⟨⟨fun other => ?_, rfl, rfl, rfl⟩, hs⟩
    split
    · next hmem =>
      have hzero := hs.entry_nonneg pledger
      rw [List.mem_singleton.mp hmem]
      omega
    · rfl

theorem refundAll_removed {house token : Address} {env : Env} (hs : Founded s)
    (h : pledgers.foldlM (refundOne house env token) s = .ok t) : Removed pledgers s t ∧ Founded t := by
  induction pledgers generalizing s with
  | nil =>
    rw [List.foldlM_nil, pure_eq_ok] at h
    subst h
    exact ⟨.nobody rfl rfl rfl rfl, hs⟩
  | cons pledger pledgers ih =>
    rw [List.foldlM_cons, bind_eq_ok] at h
    obtain ⟨s₁, hone, h⟩ := h
    obtain ⟨hfirst, hs₁⟩ := refundOne_removed hs hone
    obtain ⟨hrest, ht⟩ := ih hs₁ h
    refine ⟨⟨fun other => ?_, ?_, ?_, ?_⟩, ht⟩
    · rw [hrest.entries, hfirst.entries]
      by_cases hmem : other ∈ pledgers
      · simp [hmem]
      · simp [hmem]
    · rw [hrest.same_tiers, hfirst.same_tiers]
    · rw [hrest.same_tier, hfirst.same_tier]
    · rw [hrest.same_count, hfirst.same_count]

end Removal

section Pledges
variable {s t : State} {pledger : Address}

/-- The pledge is made, in the tier that `tierOf t` says. -/
structure Pledged (pledger : Address) (s t : State) : Prop where
  pledged : 0 < entry t.pledges pledger
  entries : ∀ other, other ≠ pledger → entry t.pledges other = entry s.pledges other
  tiers : ∀ other, other ≠ pledger → tierOf t other = tierOf s other
  limits : ∀ tid, backerLimit t tid = backerLimit s tid

theorem Pledged.mem_backers_iff (h : Pledged pledger s t) {tid : ℕ} {other : Address} :
    other ∈ backers t tid ↔
      if other = pledger then tierOf t pledger = some tid else other ∈ backers s tid := by
  rw [mem_backers]
  by_cases hother : other = pledger
  · rw [if_pos hother, hother]
    exact and_iff_right h.pledged
  · rw [if_neg hother, h.entries other hother, h.tiers other hother, mem_backers]

theorem Pledged.backers_insert (h : Pledged pledger s t) {tid : ℕ}
    (htier : tierOf t pledger = some tid) : backers t tid = insert pledger (backers s tid) := by
  ext other
  rw [h.mem_backers_iff, Finset.mem_insert]
  by_cases hother : other = pledger
  · simp [hother, htier]
  · simp [hother]

theorem Pledged.backers_erase (h : Pledged pledger s t) {tid : ℕ}
    (htier : tierOf t pledger ≠ some tid) : backers t tid = (backers s tid).erase pledger := by
  ext other
  rw [h.mem_backers_iff, Finset.mem_erase]
  by_cases hother : other = pledger
  · simp [hother, htier]
  · simp [hother]

theorem Pledged.idle (h : Pledged pledger s t) (hidle : Idle s) : Idle t := by
  intro other hnone tid htier
  by_cases hother : other = pledger
  · have hpos := h.pledged
    rw [hother] at hnone
    omega
  · rw [h.entries other hother] at hnone
    rw [h.tiers other hother] at htier
    rw [h.limits]
    exact hidle other hnone tid htier

theorem Pledged.untiered (h : Pledged pledger s t) (hs : TiersKept s) (hidle : Idle s)
    (htier : tierOf t pledger = tierOf s pledger)
    (hcount : ∀ tid, backerCount t tid = backerCount s tid) : TiersKept t := by
  apply TiersKept.of_counted
  intro tid max hlimit
  rw [h.limits] at hlimit
  have hsame : backers t tid = backers s tid := by
    by_cases hplace : tierOf s pledger = some tid
    · rw [h.backers_insert (htier.trans hplace)]
      exact Finset.insert_eq_of_mem ((hidle.mem_backers_iff hlimit).mpr hplace)
    · rw [h.backers_erase (fun heq => hplace (htier.symm.trans heq))]
      exact Finset.erase_eq_of_notMem fun hmem => hplace (mem_backers.mp hmem).2
  rw [hsame, hcount]
  exact ⟨hs.counted tid max hlimit, hs.limited tid max hlimit⟩

/-- What choosing a tier does to the counts. -/
structure Chosen (pledger : Address) (tid : ℕ) (s t : State) : Prop where
  tier : tierOf t pledger = some tid
  others : ∀ other, other ≠ tid → backerCount t other = backerCount s other
  held : tierOf s pledger = some tid → backerCount t tid = backerCount s tid
  taken : ∀ max, backerLimit s tid = some max → tierOf s pledger ≠ some tid →
    backerCount s tid < max ∧ backerCount t tid = backerCount s tid + 1

theorem Pledged.chosen_iff (h : Pledged pledger s t) (hs : TiersKept s) (hidle : Idle s) {tid : ℕ}
    (hchosen : Chosen pledger tid s t) :
    TiersKept t ↔ tierOf s pledger = some tid ∨ Unseated s pledger := by
  constructor
  · intro ht
    by_cases hsame : tierOf s pledger = some tid
    · exact .inl hsame
    · right
      intro old hold
      cases hlimit : backerLimit s old with
      | none => rfl
      | some max =>
        have hne : old ≠ tid := by
          intro heq
          rw [heq] at hold
          exact hsame hold
        have hleft : tierOf t pledger ≠ some old := by
          rw [hchosen.tier]
          exact fun heq => hne (Option.some.inj heq).symm
        have hmem := (hidle.mem_backers_iff hlimit).mpr hold
        have hcount := ht.counted old max ((h.limits old).trans hlimit)
        have hcard := Finset.card_erase_add_one hmem
        rw [h.backers_erase hleft, hchosen.others old hne, hs.counted old max hlimit] at hcount
        omega
  · intro hfree
    apply TiersKept.of_counted
    intro other max hlimit
    rw [h.limits] at hlimit
    have hcount := hs.counted other max hlimit
    have hmax := hs.limited other max hlimit
    by_cases hother : other = tid
    · subst hother
      rw [h.backers_insert hchosen.tier]
      by_cases hheld : tierOf s pledger = some other
      · rw [hchosen.held hheld,
          Finset.insert_eq_of_mem ((hidle.mem_backers_iff hlimit).mpr hheld)]
        exact ⟨hcount, hmax⟩
      · have hnew : pledger ∉ backers s other := fun hmem => hheld (mem_backers.mp hmem).2
        obtain ⟨hroom, hadded⟩ := hchosen.taken max hlimit hheld
        rw [hadded, Finset.card_insert_of_notMem hnew]
        omega
    · have hnot : tierOf t pledger ≠ some other := by
        rw [hchosen.tier]
        exact fun heq => hother (Option.some.inj heq).symm
      have houtside : pledger ∉ backers s other := by
        intro hmem
        have hplace := (mem_backers.mp hmem).2
        rcases hfree with hheld | hunseated
        · rw [hplace] at hheld
          exact hother (Option.some.inj hheld)
        · have hnone := hunseated other hplace
          rw [hlimit] at hnone
          cases hnone
      rw [h.backers_erase hnot, Finset.erase_eq_of_notMem houtside, hchosen.others other hother]
      exact ⟨hcount, hmax⟩

end Pledges

section Calls
variable {house : Address} {env : Env} {i : Invocation house} {s t : State} {pledger : Address}

theorem countBacker_chosen {tid max : ℕ} {tier : FundingTier} (hmax : tier.maxBackers = some max)
    (h : countBacker pledger tid tier s = .ok t) :
    (tierOf s pledger = some tid ∧ t = s) ∨ (tierOf s pledger ≠ some tid ∧ backerCount s tid < max ∧
      t.tierBackerCount = s.tierBackerCount.insert tid (backerCount s tid + 1)) := by
  unfold countBacker at h
  rw [hmax] at h
  simp only [bind_eq_ok, rejectIf_eq_ok, not_and, not_le] at h
  obtain ⟨_, hroom, h⟩ := h
  split at h
  · next hheld =>
    rw [pure_eq_ok] at h
    exact .inl ⟨hheld, h.symm⟩
  · next hheld =>
    simp only [bind_eq_ok, unwrap_eq_ok, checkedAddU32_eq_some, pure_eq_ok] at h
    obtain ⟨_, ⟨_, rfl⟩, rfl⟩ := h
    exact .inr ⟨hheld, hroom hheld, rfl⟩

theorem backerCount_insert {tid count : ℕ}
    (h : t.tierBackerCount = s.tierBackerCount.insert tid count) (other : ℕ) :
    backerCount t other = if other = tid then count else backerCount s other := by
  unfold backerCount
  rw [h, lookup_insert_ite]
  split <;> rfl

theorem selectTier_chosen {tid : ℕ} (h : selectTier pledger (some tid) s = .ok t) :
    Chosen pledger tid s t := by
  simp only [selectTier, getInstance, bind_eq_ok, okOr_eq_ok, pure_eq_ok] at h
  obtain ⟨tiers, htiers, tier, htier, s₁, hcount, rfl⟩ := h
  have hlimit : backerLimit s tid = tier.maxBackers := by
    unfold backerLimit
    rw [htiers, Option.bind_eq_bind, Option.bind_some, htier]
    rfl
  have hplace : tierOf { s₁ with pledgeTier := s₁.pledgeTier.insert pledger (some tid) } pledger =
      some tid := by
    unfold tierOf
    dsimp only
    rw [Finmap.lookup_insert, Option.getD_some]
  cases hmax : tier.maxBackers with
  | none =>
    unfold countBacker at hcount
    rw [hmax] at hcount
    cases hcount
    refine ⟨hplace, fun _ _ => rfl, fun _ => rfl, fun max hsome => ?_⟩
    rw [hlimit, hmax] at hsome
    cases hsome
  | some limit =>
    rcases countBacker_chosen hmax hcount with ⟨hheld, rfl⟩ | ⟨hheld, hroom, hinsert⟩
    · exact ⟨hplace, fun _ _ => rfl, fun _ => rfl, fun _ _ hnot => absurd hheld hnot⟩
    · have hcounts := backerCount_insert hinsert
      refine ⟨hplace, fun other hother => ?_, fun heq => absurd heq hheld, fun max hsome _ => ?_⟩
      · exact (hcounts other).trans (if_neg hother)
      · rw [hlimit, hmax] at hsome
        cases hsome
        exact ⟨hroom, (hcounts tid).trans (if_pos rfl)⟩

theorem selectTier_others {tierId : Option ℕ} (h : selectTier pledger tierId s = .ok t)
    {other : Address} (hother : other ≠ pledger) : tierOf t other = tierOf s other := by
  unfold selectTier at h
  split at h
  · rw [pure_eq_ok] at h
    rw [h]
  · simp only [bind_eq_ok, pure_eq_ok] at h
    obtain ⟨_, _, _, _, s₁, hcount, rfl⟩ := h
    rw [countBacker_ok hcount]
    unfold tierOf
    dsimp only
    rw [Finmap.lookup_insert_of_ne _ hother]

theorem pledge_pledged {amount : ℤ} {tierId : Option ℕ} (hs : Founded s)
    (h : pledge house env pledger amount tierId s = .ok t) :
    Pledged pledger s t ∧ Founded t ∧ ∃ u, selectTier pledger tierId s = .ok u ∧
      t.pledgeTier = u.pledgeTier ∧ t.tierBackerCount = u.tierBackerCount := by
  simp only [pledge, bind_eq_ok, rejectIf_eq_ok, okOr_eq_ok, checkedAdd_eq_some, not_le] at h
  obtain ⟨_, hamount, _, _, _, _, _, _, _, _, _, _, _, ⟨_, rfl⟩, _, _, u, htier, _, _, _, _, _,
    ⟨_, rfl⟩, hpay⟩ := h
  have hnonneg := hs.entry_nonneg pledger
  have hframe := selectTier_ok htier
  obtain ⟨_, rfl⟩ := recordTransfer_eq_ok.mp hpay
  dsimp only
  refine ⟨⟨?_, fun other hother => ?_, fun other hother => ?_, fun tid => ?_⟩, ⟨?_, ?_⟩, u, htier, rfl,
    rfl⟩
  · dsimp only
    rw [entry_insert_self]
    omega
  · dsimp only
    rw [hframe]
    exact entry_insert_of_ne _ _ hother
  · exact selectTier_others htier hother
  · unfold backerLimit
    dsimp only
    rw [hframe]
  · dsimp only
    rw [hframe]
    exact hs.creator_some
  · intro other pledge hpledge
    dsimp only at hpledge
    rw [hframe] at hpledge
    dsimp only at hpledge
    rw [lookup_insert_ite] at hpledge
    split at hpledge
    · cases hpledge
      omega
    · exact hs.positive other pledge hpledge

theorem pledge_kept_iff {amount : ℤ} {tierId : Option ℕ} (hs : Founded s) (hkept : TiersKept s)
    (hidle : Idle s) (h : pledge house env pledger amount tierId s = .ok t) :
    TiersKept t ↔ KeepsPlaces s (.pledge pledger amount tierId) := by
  obtain ⟨hpledged, _, u, hselect, htier, hcount⟩ := pledge_pledged hs h
  cases tierId with
  | none =>
    cases hselect
    refine iff_of_true (hpledged.untiered hkept hidle ?_ fun tid => ?_) trivial
    · unfold tierOf
      rw [htier]
    · unfold backerCount
      rw [hcount]
  | some tid =>
    have hchosen := selectTier_chosen hselect
    have htierOf : ∀ other, tierOf t other = tierOf u other := fun other => by
      unfold tierOf
      rw [htier]
    have hcounts : ∀ other, backerCount t other = backerCount u other := fun other => by
      unfold backerCount
      rw [hcount]
    apply hpledged.chosen_iff hkept hidle
    constructor
    · rw [htierOf]
      exact hchosen.tier
    · intro other hother
      rw [hcounts]
      exact hchosen.others other hother
    · intro hheld
      rw [hcounts]
      exact hchosen.held hheld
    · intro max hlimit hnot
      rw [hcounts]
      exact hchosen.taken max hlimit hnot

theorem withdraw_removed (hs : Founded s) (h : withdraw house env pledger s = .ok t) :
    0 < entry s.pledges pledger ∧ Removed [pledger] s t ∧ Founded t := by
  simp only [withdraw, bind_eq_ok, rejectIf_eq_ok, not_le] at h
  obtain ⟨_, _, _, _, _, _, _, _, _, _, _, _, _, _, _, hpledge, _, _, _, _, hpay⟩ := h
  obtain ⟨_, rfl⟩ := recordTransfer_eq_ok.mp hpay
  exact ⟨hpledge, .erased pledger rfl rfl rfl rfl, hs.erased rfl rfl⟩

theorem refund_removed (hs : Founded s) (h : refund house env pledger s = .ok t) :
    0 < entry s.pledges pledger ∧ Removed [pledger] s t ∧ Founded t := by
  simp only [refund, bind_eq_ok, rejectIf_eq_ok, not_le] at h
  obtain ⟨_, _, _, _, _, _, _, _, _, _, _, _, _, _, _, _, _, _, _, hpledge, _, _, hpay⟩ := h
  obtain ⟨_, rfl⟩ := recordTransfer_eq_ok.mp hpay
  exact ⟨hpledge, .erased pledger rfl rfl rfl rfl, hs.erased rfl rfl⟩

theorem Founded.other (hs : Founded s) (hpledges : t.pledges = s.pledges)
    (hcreator : t.creator = s.creator) : Founded t := by
  obtain ⟨hsome, hpositive⟩ := hs
  rw [← hcreator] at hsome
  rw [← hpledges] at hpositive
  exact ⟨hsome, hpositive⟩

/-- A call that takes away the pledges of `pledgers` and no others. -/
theorem Removed.step {pledgers : List Address} {call : Call} (hremoved : Removed pledgers s t)
    (ht : Founded t) (hcareful : KeepsPlaces s call ↔
      ∀ pledger ∈ pledgers, 0 < entry s.pledges pledger → Unseated s pledger) : Founded t ∧
    (TiersKept s → Idle s → (TiersKept t ↔ KeepsPlaces s call) ∧ (TiersKept t → Idle t)) := by
  refine ⟨ht, fun hkept hidle => ?_⟩
  rw [hremoved.kept_iff hkept, hcareful]
  exact ⟨Iff.rfl, hremoved.idle hidle⟩

theorem Removed.single_step {call : Call} (hremoved : Removed [pledger] s t) (ht : Founded t)
    (hpledge : 0 < entry s.pledges pledger)
    (hcareful : KeepsPlaces s call ↔ Unseated s pledger) : Founded t ∧
    (TiersKept s → Idle s → (TiersKept t ↔ KeepsPlaces s call) ∧ (TiersKept t → Idle t)) := by
  apply hremoved.step ht
  rw [hcareful, List.forall_mem_singleton]
  exact ⟨fun hunseated _ => hunseated, fun hunseated => hunseated hpledge⟩

theorem Founded.other_step {call : Call} (hs : Founded s) (hpledges : t.pledges = s.pledges)
    (hcreator : t.creator = s.creator) (htiers : t.tiers = s.tiers)
    (htier : t.pledgeTier = s.pledgeTier) (hcount : t.tierBackerCount = s.tierBackerCount)
    (hcareful : KeepsPlaces s call) : Founded t ∧
    (TiersKept s → Idle s → (TiersKept t ↔ KeepsPlaces s call) ∧ (TiersKept t → Idle t)) := by
  apply (Removed.nobody hpledges htiers htier hcount).step (hs.other hpledges hcreator)
  exact iff_of_true hcareful (List.forall_mem_nil _)

theorem exec_tiers (hs : Founded s) (h : exec i s = .ok t) : Founded t ∧
    (TiersKept s → Idle s → (TiersKept t ↔ KeepsPlaces s i.call) ∧ (TiersKept t → Idle t)) := by
  unfold exec at h
  cases hcall : i.call with
  | initializeCampaign =>
    simp only [hcall, initializeCampaign, bind_eq_ok, rejectIf_eq_ok] at h
    obtain ⟨_, hnone, _⟩ := h
    exact absurd hs.creator_some hnone
  | pledge pledger amount tierId =>
    rw [hcall] at h
    obtain ⟨hpledged, ht, _⟩ := pledge_pledged hs h
    exact ⟨ht, fun hkept hidle => ⟨pledge_kept_iff hs hkept hidle h, fun _ => hpledged.idle hidle⟩⟩
  | withdraw pledger =>
    rw [hcall] at h
    obtain ⟨hpledge, hremoved, ht⟩ := withdraw_removed hs h
    exact hremoved.single_step ht hpledge Iff.rfl
  | refund pledger =>
    rw [hcall] at h
    obtain ⟨hpledge, hremoved, ht⟩ := refund_removed hs h
    exact hremoved.single_step ht hpledge Iff.rfl
  | refundBatch pledgers =>
    simp only [hcall, refundBatch, bind_eq_ok] at h
    obtain ⟨_, _, _, _, _, _, _, _, _, _, _, _, _, _, _, _, h⟩ := h
    obtain ⟨hremoved, ht⟩ := refundAll_removed hs h
    exact hremoved.step ht Iff.rfl
  | extendDeadline newDeadline =>
    simp only [hcall, extendDeadline, bind_eq_ok, pure_eq_ok] at h
    obtain ⟨_, _, _, _, _, _, _, _, _, _, _, _, _, _, rfl⟩ := h
    exact hs.other_step rfl rfl rfl rfl rfl trivial
  | claim =>
    simp only [hcall, claim, bind_eq_ok] at h
    obtain ⟨_, _, _, _, _, _, _, _, _, _, _, _, _, _, _, _, _, _, _, _, hpay⟩ := h
    rw [recordTransfer_ok hpay]
    exact hs.other_step rfl rfl rfl rfl rfl trivial
  | cancelCampaign =>
    simp only [hcall, cancelCampaign, bind_eq_ok, pure_eq_ok] at h
    obtain ⟨_, _, _, _, _, _, _, _, _, _, _, _, rfl⟩ := h
    exact hs.other_step rfl rfl rfl rfl rfl trivial

end Calls

/-- In every run, after every call the count of every tier with a limit is the number of its backers,
    at most the limit, and refuses nobody a free place, if and only if nobody who has a place in such
    a tier ever withdraws, is refunded or takes another tier. -/
theorem tier_places_iff (house creator token : Address) (goal : ℤ) (deadline : ℕ)
    (tiers : List FundingTier) (maxPledgePerAddress : Option ℤ) (claimWindow : Option ℕ)
    (i₀ : Invocation house) (s : State)
    (hcall : i₀.call =
      .initializeCampaign creator token goal deadline tiers maxPledgePerAddress claimWindow)
    (hinit : exec i₀ State.empty = .ok s) (is : List (Invocation house)) :
    TiersKept s ∧
      ((∀ e ∈ history exec s is, TiersKept e.after) ↔
        ∀ e ∈ history exec s is, KeepsPlaces e.before e.invocation.call) := by
  have hs : Founded s ∧ TiersKept s ∧ Idle s := by
    simp only [exec, hcall, initializeCampaign, bind_eq_ok, pure_eq_ok] at hinit
    obtain ⟨_, _, _, _, _, _, _, _, _, _, _, _, rfl⟩ := hinit
    refine ⟨⟨rfl, fun _ _ h => by cases h⟩, ?_, fun _ _ _ htier => by cases htier⟩
    apply TiersKept.of_counted
    exact fun _ max _ => ⟨rfl, Nat.zero_le max⟩
  obtain ⟨hfounded, hkept, hidle⟩ := hs
  refine ⟨hkept, ?_⟩
  apply history_forall_iff_while (I := Founded) (A := TiersKept) (J := Idle) (P := fun _ _ => True)
    (B := fun s (i : Invocation house) => KeepsPlaces s i.call)
  · exact fun s i t hs _ hok => (exec_tiers hs hok).1
  · exact fun s i t hs hkept hidle _ hok => (exec_tiers hs hok).2 hkept hidle
  · exact hfounded
  · exact hkept
  · exact hidle
  · exact along_true exec s is

/-- One early backer, and any number of other ones. -/
def demoTiered : Invocation demoHouse :=
  demoCall 1 (.initializeCampaign demoCreator demoToken 100 10 [⟨10, "early", some 1⟩, ⟨5, "any", none⟩]
    none none)

/-- Alice takes the early place and adds to her pledge. -/
theorem tier_places_iff_demo : TiersKept (run State.empty [demoTiered]) ∧
    ∀ e ∈ history exec (run State.empty [demoTiered])
        [demoCall 2 (.pledge demoAlice 20 (some 0)), demoCall 3 (.pledge demoBob 5 (some 1)),
          demoCall 3 (.pledge demoAlice 5 none)],
      TiersKept e.after := by
  have hplaces := tier_places_iff demoHouse demoCreator demoToken 100 10 _ none none demoTiered
    (run State.empty [demoTiered]) rfl rfl [demoCall 2 (.pledge demoAlice 20 (some 0)),
      demoCall 3 (.pledge demoBob 5 (some 1)), demoCall 3 (.pledge demoAlice 5 none)]
  constructor
  · exact hplaces.1
  · apply hplaces.2.mpr
    decide +kernel

/-- Alice has the early place and withdraws, or takes the other tier. Bob is refused the place. -/
theorem place_given_up :
    let after := fun (call : Call) =>
      run State.empty [demoTiered, demoCall 2 (.pledge demoAlice 20 (some 0)), demoCall 3 call]
    (backerCount (after (.withdraw demoAlice)) 0 = 1 ∧ backers (after (.withdraw demoAlice)) 0 = ∅ ∧
      exec (demoCall 4 (.pledge demoBob 20 (some 0))) (after (.withdraw demoAlice)) =
        .error (.error .tierCapacityExceeded)) ∧
    (backerCount (after (.pledge demoAlice 5 (some 1))) 0 = 1 ∧
      backers (after (.pledge demoAlice 5 (some 1))) 0 = ∅) ∧
    ¬ TiersKept (after (.withdraw demoAlice)) := by
  have hempty : backers (run State.empty [demoTiered, demoCall 2 (.pledge demoAlice 20 (some 0)),
      demoCall 3 (.withdraw demoAlice)]) 0 = ∅ := by decide +kernel
  refine ⟨⟨by decide +kernel, hempty, rfl⟩, ⟨by decide +kernel, by decide +kernel⟩, fun hkept => ?_⟩
  have hcount := hkept.counted 0 1 (by decide +kernel)
  rw [hempty] at hcount
  revert hcount
  decide +kernel

end SorobanKit.Crowdfund
