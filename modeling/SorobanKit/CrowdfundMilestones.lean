import SorobanKit.CrowdfundCustody

set_option autoImplicit false

/-!
# Milestones and pledges in other tokens

What the creator releases by milestones and what is pledged with whitelisted tokens has its own
records, and moves tokens of the same contract. Both share `TotalPledged` and the main token with
the pledges.
-/
namespace SorobanKit.Crowdfund
open HostBalances HostInteger HostInvocation HostTransfers

structure Milestone where
  milestoneId : ℕ
  amount : ℤ
  description : String
  votesRequired : ℕ
  deriving DecidableEq, Repr

/-- The campaign with the records of milestones and of tokens. -/
structure Campaign extends State where
  milestones : Option (List Milestone) := none
  milestoneVotes : Finmap (fun _ : ℕ × Address => Bool) := ∅
  milestoneReleased : Finmap (fun _ : ℕ => Bool) := ∅
  whitelistedTokens : Option (List Address) := none
  oracleAddress : Option Address := none
  tokenPledges : Balances (Address × Address) := ∅
  tokenTotalPledged : Balances Address := ∅

def Campaign.empty : Campaign := {}

section Entrypoints
variable (house : Address) (env : Env)

def Campaign.callTransfer (x : Transfer Purpose) (c : Campaign) : Result CrowdfundError Campaign := do
  let s ← Crowdfund.callTransfer env x c.toState
  return { c with toState := s }

/-- The deadline is not looked at. -/
def setMilestones (milestones : List Milestone) (c : Campaign) : Result CrowdfundError Campaign := do
  let creator ← getInstance c.creator
  requireAuth env.toContext creator
  let cancelled ← getInstance c.cancelled
  rejectIf cancelled .campaignCancelled
  return { c with milestones := some milestones }

def findMilestone (milestoneId : ℕ) (c : Campaign) : Result CrowdfundError Milestone :=
  okOr ((c.milestones.getD []).find? fun m => m.milestoneId = milestoneId) .milestoneNotFound

def requestMilestoneRelease (milestoneId : ℕ) (c : Campaign) : Result CrowdfundError Campaign := do
  let creator ← getInstance c.creator
  requireAuth env.toContext creator
  let _ ← findMilestone milestoneId c
  rejectIf ((c.milestoneReleased.lookup milestoneId).getD false) .milestoneAlreadyReleased
  return c

def voteMilestone (voter : Address) (milestoneId : ℕ) (approve : Bool) (c : Campaign) :
    Result CrowdfundError Campaign := do
  requireAuth env.toContext voter
  rejectIf (entry c.pledges voter ≤ 0) .nothingToWithdraw
  let _ ← findMilestone milestoneId c
  return { c with milestoneVotes := c.milestoneVotes.insert (milestoneId, voter) approve }

/-- Neither votes nor the state of the campaign are looked at. -/
def releaseMilestone (milestoneId : ℕ) (c : Campaign) : Result CrowdfundError Campaign := do
  let creator ← getInstance c.creator
  requireAuth env.toContext creator
  let milestone ← findMilestone milestoneId c
  rejectIf ((c.milestoneReleased.lookup milestoneId).getD false) .milestoneAlreadyReleased
  let c := { c with milestoneReleased := c.milestoneReleased.insert milestoneId true }
  let token ← getInstance c.token
  c.callTransfer env ⟨.milestone, token, house, creator, milestone.amount⟩

def whitelistTokens (tokens : List Address) (oracle : Address) (c : Campaign) :
    Result CrowdfundError Campaign := do
  let creator ← getInstance c.creator
  requireAuth env.toContext creator
  return { c with whitelistedTokens := some tokens, oracleAddress := some oracle }

/-- One unit of any token counts as one unit of `TotalPledged`. -/
def pledgeWithToken (pledger token : Address) (amount : ℤ) (c : Campaign) :
    Result CrowdfundError Campaign := do
  rejectIf (amount ≤ 0) .invalidAmount
  let deadline ← getInstance c.deadline
  rejectIf (deadline < env.sequence) .deadlinePassed
  requireAuth env.toContext pledger
  rejectIf (token ∉ c.whitelistedTokens.getD []) .tokenNotWhitelisted
  let _ ← okOr c.oracleAddress .notInitialized
  let newPledge ← okOr (checkedAdd (entry c.tokenPledges (pledger, token)) amount) .overflow
  let c := { c with tokenPledges := c.tokenPledges.insert (pledger, token) newPledge }
  let newTokenTotal ← okOr (checkedAdd (entry c.tokenTotalPledged token) amount) .overflow
  let c := { c with tokenTotalPledged := c.tokenTotalPledged.insert token newTokenTotal }
  let total ← getInstance c.totalPledged
  let newTotal ← okOr (checkedAdd total amount) .overflow
  let s := { c.toState with totalPledged := some newTotal }
  ({ c with toState := s } : Campaign).callTransfer env ⟨.tokenPledge, token, pledger, house, amount⟩

end Entrypoints

inductive CampaignCall where
  | funding (call : Call)
  | setMilestones (milestones : List Milestone)
  | requestMilestoneRelease (milestoneId : ℕ)
  | voteMilestone (voter : Address) (milestoneId : ℕ) (approve : Bool)
  | releaseMilestone (milestoneId : ℕ)
  | whitelistTokens (tokens : List Address) (oracle : Address)
  | pledgeWithToken (pledger token : Address) (amount : ℤ)

/-- A call on the contract at `house` by others. -/
structure CampaignInvocation (house : Address) extends Env where
  call : CampaignCall
  outside : house ∉ auths

variable {house : Address}

/-- A call that knows nothing of milestones and tokens. -/
def CampaignInvocation.fund (i : CampaignInvocation house) (call : Call) : Invocation house where
  toEnv := i.toEnv
  call := call
  outside := i.outside

def execCampaign (i : CampaignInvocation house) (c : Campaign) : Result CrowdfundError Campaign :=
  let env := i.toEnv
  match i.call with
  | .funding call => do
    let s ← exec (i.fund call) c.toState
    return { c with toState := s }
  | .setMilestones milestones => setMilestones env milestones c
  | .requestMilestoneRelease milestoneId => requestMilestoneRelease env milestoneId c
  | .voteMilestone voter milestoneId approve => voteMilestone env voter milestoneId approve c
  | .releaseMilestone milestoneId => releaseMilestone house env milestoneId c
  | .whitelistTokens tokens oracle => whitelistTokens env tokens oracle c
  | .pledgeWithToken pledger token amount => pledgeWithToken house env pledger token amount c

def runCampaign (c : Campaign) (is : List (CampaignInvocation house)) : Campaign :=
  HostRuns.run execCampaign c is

/-- What a returning call does to the campaign. -/
inductive CampaignMove (i : CampaignInvocation house) (c d : Campaign) : Prop where
  | funded (call : Call) (hcall : i.call = .funding call)
      (hok : exec (i.fund call) c.toState = .ok d.toState)
  | noted (hcall : ∀ pledger token amount, i.call ≠ .pledgeWithToken pledger token amount)
      (h : d.toState = c.toState)
  | released (creator token : Address) (milestone : Milestone)
      (hcall : i.call = .releaseMilestone milestone.milestoneId)
      (hfind : (c.milestones.getD []).find? (fun m => m.milestoneId = milestone.milestoneId) =
        some milestone)
      (hcreator : c.creator = some creator) (htoken : c.token = some token)
      (haccepts : i.tokens.accepts c.transfers ⟨.milestone, token, house, creator, milestone.amount⟩)
      (h : d.toState = { c.toState with
        transfers := c.transfers ++ [⟨.milestone, token, house, creator, milestone.amount⟩] })
  | pledged (pledger token : Address) (amount total : ℤ) (deadline : ℕ)
      (hcall : i.call = .pledgeWithToken pledger token amount) (hamount : 0 < amount)
      (hdeadline : c.deadline = some deadline) (hopen : i.sequence ≤ deadline)
      (hauth : pledger ∈ i.auths) (htotal : c.totalPledged = some total)
      (h : d.toState = { c.toState with
        totalPledged := some (total + amount),
        transfers := c.transfers ++ [⟨.tokenPledge, token, pledger, house, amount⟩] })

section Moves
variable {env : Env} {i : CampaignInvocation house} {c d : Campaign}

theorem Campaign.callTransfer_ok {x : Transfer Purpose} (h : c.callTransfer env x = .ok d) :
    env.tokens.accepts c.transfers x ∧
      d.toState = { c.toState with transfers := c.transfers ++ [x] } := by
  simp only [Campaign.callTransfer, bind_eq_ok, pure_eq_ok] at h
  obtain ⟨s, hs, rfl⟩ := h
  obtain ⟨haccepts, hd⟩ := recordTransfer_eq_ok.mp hs
  exact ⟨haccepts, hd.symm⟩

theorem releaseMilestone_move {milestoneId : ℕ} (hcall : i.call = .releaseMilestone milestoneId)
    (h : releaseMilestone house i.toEnv milestoneId c = .ok d) : CampaignMove i c d := by
  simp only [releaseMilestone, findMilestone, bind_eq_ok, getInstance, okOr_eq_ok] at h
  obtain ⟨creator, hcreator, _, _, milestone, hfind, _, _, token, htoken, hpay⟩ := h
  obtain ⟨haccepts, hd⟩ := Campaign.callTransfer_ok hpay
  obtain rfl : milestone.milestoneId = milestoneId := by
    simpa using List.find?_some hfind
  exact .released creator token milestone hcall hfind hcreator htoken haccepts hd

theorem pledgeWithToken_move {pledger token : Address} {amount : ℤ}
    (hcall : i.call = .pledgeWithToken pledger token amount)
    (h : pledgeWithToken house i.toEnv pledger token amount c = .ok d) : CampaignMove i c d := by
  simp only [pledgeWithToken, bind_eq_ok, rejectIf_eq_ok, getInstance, okOr_eq_ok, requireAuth_eq_ok,
    checkedAdd_eq_some, not_le, not_lt] at h
  obtain ⟨_, hamount, deadline, hdeadline, _, hopen, _, hauth, _, _, _, _, _, _, _, _, total, htotal, _,
    ⟨_, rfl⟩, hpay⟩ := h
  obtain ⟨_, hd⟩ := Campaign.callTransfer_ok hpay
  exact .pledged pledger token amount total deadline hcall hamount hdeadline hopen hauth htotal hd

/-- Every returning call is one of the moves. -/
theorem execCampaign_move (h : execCampaign i c = .ok d) : CampaignMove i c d := by
  unfold execCampaign at h
  cases hcall : i.call with
  | funding call =>
    simp only [hcall, bind_eq_ok, pure_eq_ok] at h
    obtain ⟨s, hs, rfl⟩ := h
    exact .funded call hcall hs
  | setMilestones milestones =>
    simp only [hcall, setMilestones, bind_eq_ok, pure_eq_ok] at h
    obtain ⟨_, _, _, _, _, _, _, _, rfl⟩ := h
    exact .noted (by simp [hcall]) rfl
  | requestMilestoneRelease milestoneId =>
    simp only [hcall, requestMilestoneRelease, bind_eq_ok, pure_eq_ok] at h
    obtain ⟨_, _, _, _, _, _, _, _, rfl⟩ := h
    exact .noted (by simp [hcall]) rfl
  | voteMilestone voter milestoneId approve =>
    simp only [hcall, voteMilestone, bind_eq_ok, pure_eq_ok] at h
    obtain ⟨_, _, _, _, _, _, rfl⟩ := h
    exact .noted (by simp [hcall]) rfl
  | releaseMilestone milestoneId =>
    rw [hcall] at h
    exact releaseMilestone_move hcall h
  | whitelistTokens tokens oracle =>
    simp only [hcall, whitelistTokens, bind_eq_ok, pure_eq_ok] at h
    obtain ⟨_, _, _, _, rfl⟩ := h
    exact .noted (by simp [hcall]) rfl
  | pledgeWithToken pledger token amount =>
    rw [hcall] at h
    exact pledgeWithToken_move hcall h

end Moves

end SorobanKit.Crowdfund
