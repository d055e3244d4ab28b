import SorobanKit.TokenConservation
import SorobanKit.TokenOffices

set_option autoImplicit false

/-!
# Handing over the admin office

The admin changes in one step with `set_admin`, or in two with `propose_admin` and
`accept_admin`. Both protocols share the admin key, and `set_admin` leaves the pending slot
as it is: as long as it is only used while that slot is empty, whoever accepts was
nominated by the admin in office.
-/
namespace SorobanKit.Token
open HostInvocation HostRuns

/-- `admin` proposed `nominee` while in office, and has since stayed in office without
    withdrawing or replacing the proposal. -/
def Nominated (past : List (Entry State Invocation)) (admin nominee : Address) : Prop :=
  ∃ earlier proposal later, past = earlier ++ proposal :: later ∧
    proposal.invocation.call = .proposeAdmin nominee ∧
    proposal.before.admin = some admin ∧ admin ∈ proposal.invocation.auths ∧
    ∀ e ∈ later, e.invocation.call ≠ .cancelAdminProposal ∧
      (∀ other, e.invocation.call ≠ .proposeAdmin other) ∧ e.after.admin = some admin

/-- The admin in office before entry `e` agreed to the change that `e` makes. -/
def Consented (past : List (Entry State Invocation)) (e : Entry State Invocation)
    (admin : Address) : Prop :=
  (∃ newAdmin, e.invocation.call = .setAdmin newAdmin ∧ admin ∈ e.invocation.auths) ∨
  (∃ nominee, e.invocation.call = .acceptAdmin ∧ nominee ∈ e.invocation.auths ∧
    e.after.admin = some nominee ∧ Nominated past admin nominee)

/-- `set_admin` is used only while no proposal is pending. -/
def NoProposalPending (s : State) (i : Invocation) : Prop :=
  ∀ newAdmin, i.call = .setAdmin newAdmin → s.pendingAdmin = none

/-- The pending nominee has the nomination of the admin in office. -/
def Backed (past : List (Entry State Invocation)) (s : State) : Prop :=
  ∀ nominee, s.pendingAdmin = some nominee →
    ∃ admin, s.admin = some admin ∧ Nominated past admin nominee

theorem Nominated.append {past : List (Entry State Invocation)} {admin nominee : Address}
    (h : Nominated past admin nominee) {e : Entry State Invocation}
    (hcancel : e.invocation.call ≠ .cancelAdminProposal)
    (hpropose : ∀ other, e.invocation.call ≠ .proposeAdmin other)
    (hadmin : e.after.admin = some admin) : Nominated (past ++ [e]) admin nominee := by
  obtain ⟨earlier, proposal, later, rfl, hcall, hoffice, hauth, hkept⟩ := h
  refine ⟨earlier, proposal, later ++ [e], by simp, hcall, hoffice, hauth, fun x hx => ?_⟩
  rcases List.mem_append.mp hx with hx | hx
  · exact hkept x hx
  · rw [List.mem_singleton.mp hx]
    exact ⟨hcancel, hpropose, hadmin⟩

/-- A call that leaves the admin, the pending slot and the proposal alone keeps the backing. -/
theorem Backed.keep {past : List (Entry State Invocation)} {s t : State} {i : Invocation}
    (hs : Backed past s) (hcancel : i.call ≠ .cancelAdminProposal)
    (hpropose : ∀ other, i.call ≠ .proposeAdmin other)
    (hpending : t.pendingAdmin = s.pendingAdmin)
    (hadmin : s.pendingAdmin ≠ none → t.admin = s.admin) : Backed (past ++ [⟨s, i, t⟩]) t := by
  intro nominee hnominee
  rw [hpending] at hnominee
  obtain ⟨admin, hoffice, hnominated⟩ := hs nominee hnominee
  have hkeep : t.admin = some admin := by
    rw [hadmin (by simp [hnominee]), hoffice]
  exact ⟨admin, hkeep, hnominated.append hcancel hpropose hkeep⟩

theorem backed_step {d : Deployment} {past : List (Entry State Invocation)} {s t : State}
    {i : Invocation} (hs : Backed past s) (hi : NoProposalPending s i) (h : exec d i s = .ok t) :
    Backed (past ++ [⟨s, i, t⟩]) t := by
  cases exec_officeMove h with
  | idle hcall h =>
    refine hs.keep ?_ ?_ (congrArg Offices.pendingAdmin h) fun _ => congrArg Offices.admin h
    · intro hcancel
      simp [hcancel, Call.isOffice] at hcall
    · intro other hpropose
      simp [hpropose, Call.isOffice] at hcall
  | opened admin name symbol decimals maxSupply hcall hnone h =>
    refine hs.keep (by simp [hcall]) (by simp [hcall]) (congrArg Offices.pendingAdmin h) ?_
    intro hpending
    obtain ⟨nominee, hnominee⟩ := Option.ne_none_iff_exists'.mp hpending
    obtain ⟨admin, hoffice, _⟩ := hs nominee hnominee
    rw [hnone] at hoffice
    cases hoffice
  | proposed newAdmin admin hcall hadmin hauth h =>
    intro nominee hnominee
    have hpending : t.pendingAdmin = some newAdmin := congrArg Offices.pendingAdmin h
    have hoffice : t.admin = s.admin := congrArg Offices.admin h
    rw [hpending] at hnominee
    cases hnominee
    exact ⟨admin, by rw [hoffice, hadmin],
      past, ⟨s, i, t⟩, [], rfl, hcall, hadmin, hauth, by simp⟩
  | accepted _ _ _ _ h | withdrawn _ _ _ _ h =>
    intro nominee hnominee
    have hempty : t.pendingAdmin = none := congrArg Offices.pendingAdmin h
    rw [hempty] at hnominee
    cases hnominee
  | assigned newAdmin admin hcall hadmin hauth h =>
    intro nominee hnominee
    have hempty : t.pendingAdmin = s.pendingAdmin := congrArg Offices.pendingAdmin h
    rw [hempty, hi newAdmin hcall] at hnominee
    cases hnominee
  | registered _ _ hcall _ h | revoked _ _ hcall _ h
  | permitted _ _ _ _ _ _ _ hcall _ _ _ _ _ _ h =>
    exact hs.keep (by simp [hcall]) (by simp [hcall]) (congrArg Offices.pendingAdmin h)
      fun _ => congrArg Offices.admin h

theorem consented_step {d : Deployment} {past : List (Entry State Invocation)} {s t : State}
    {i : Invocation} {admin : Address} (hs : Backed past s) (h : exec d i s = .ok t)
    (hbefore : s.admin = some admin) (hafter : t.admin ≠ some admin) :
    Consented past ⟨s, i, t⟩ admin := by
  -- a move that keeps the admin contradicts the change
  have hchanged : t.admin ≠ s.admin := by
    rw [hbefore]
    exact hafter
  cases exec_officeMove h with
  | opened _ _ _ _ _ _ hnone =>
    rw [hbefore] at hnone
    cases hnone
  | accepted pending hcall hpending hauth h =>
    obtain ⟨admin', hoffice, hnominated⟩ := hs pending hpending
    have heq : admin' = admin := Option.some.inj (hoffice.symm.trans hbefore)
    subst heq
    exact .inr ⟨pending, hcall, hauth, congrArg Offices.admin h, hnominated⟩
  | assigned newAdmin admin' hcall hadmin hauth h =>
    have heq : admin' = admin := Option.some.inj (hadmin.symm.trans hbefore)
    subst heq
    exact .inl ⟨newAdmin, hcall, hauth⟩
  | idle _ h | proposed _ _ _ _ _ h | withdrawn _ _ _ _ h | registered _ _ _ _ h
  | revoked _ _ _ _ h | permitted _ _ _ _ _ _ _ _ _ _ _ _ _ _ h =>
    exact absurd (congrArg Offices.admin h) hchanged

/-- In a run that uses `set_admin` only while no proposal is pending, every change of the
    admin has the consent of the admin in office. -/
theorem admin_handover (d : Deployment) (is : List Invocation)
    (h : Along (exec d) NoProposalPending State.empty is)
    (past later : List (Entry State Invocation)) (e : Entry State Invocation)
    (hsplit : history (exec d) State.empty is = past ++ e :: later)
    (admin : Address) (hbefore : e.before.admin = some admin)
    (hafter : e.after.admin ≠ some admin) : Consented past e admin := by
  have hempty : Backed [] State.empty := by
    intro nominee hnominee
    cases hnominee
  obtain ⟨hbacked, _, hexec⟩ := history_split
    (fun past s i t hs hi hok => backed_step hs hi hok) hempty h hsplit
  exact consented_step hbacked hexec hbefore hafter

def demoPropose : Invocation :=
  { sequence := 2, auths := [demoAdmin], call := .proposeAdmin demoBob }

def demoAccept : Invocation := { sequence := 4, auths := [demoBob], call := .acceptAdmin }

def demoAssign : Invocation :=
  { sequence := 3, auths := [demoAdmin], call := .setAdmin demoAlice }

/-- The storage after a prefix of a run, for the entries of its history. -/
def demoAfter (is : List Invocation) : State := run demoDeployment State.empty is

theorem admin_handover_demo :
    Consented
      [⟨State.empty, demoCreate none, demoAfter [demoCreate none]⟩,
        ⟨demoAfter [demoCreate none], demoPropose, demoAfter [demoCreate none, demoPropose]⟩]
      ⟨demoAfter [demoCreate none, demoPropose], demoAccept,
        demoAfter [demoCreate none, demoPropose, demoAccept]⟩ demoAdmin :=
  admin_handover demoDeployment [demoCreate none, demoPropose, demoAccept]
    ⟨fun _ hcall => by simp [demoCreate] at hcall, fun _ hcall => by simp [demoPropose] at hcall,
      fun _ hcall => by simp [demoAccept] at hcall, trivial⟩
    _ [] _ rfl demoAdmin rfl (by decide)

/-- The admin proposes Bob and then makes Alice the admin; Bob still accepts. -/
theorem stale_proposal_accepted :
    ∃ past e, history (exec demoDeployment) State.empty
        [demoCreate none, demoPropose, demoAssign, demoAccept] = past ++ [e] ∧
      e.before.admin = some demoAlice ∧ e.after.admin = some demoBob ∧
      ¬ Consented past e demoAlice := by
  refine ⟨[⟨State.empty, demoCreate none, demoAfter [demoCreate none]⟩,
      ⟨demoAfter [demoCreate none], demoPropose, demoAfter [demoCreate none, demoPropose]⟩,
      ⟨demoAfter [demoCreate none, demoPropose], demoAssign,
        demoAfter [demoCreate none, demoPropose, demoAssign]⟩],
    ⟨demoAfter [demoCreate none, demoPropose, demoAssign], demoAccept,
      demoAfter [demoCreate none, demoPropose, demoAssign, demoAccept]⟩, rfl, rfl, rfl, ?_⟩
  rintro (⟨newAdmin, hcall, _⟩ | ⟨nominee, _, _, _, earlier, proposal, later, hpast, hcall, hadmin, _⟩)
  · cases hcall
  · -- the only proposal of the run is the first admin's
    have hmem : proposal ∈ earlier ++ proposal :: later := by simp
    rw [← hpast] at hmem
    simp only [List.mem_cons, List.not_mem_nil, or_false] at hmem
    rcases hmem with rfl | rfl | rfl
    · cases hcall
    · exact absurd hadmin (by decide)
    · cases hcall

end SorobanKit.Token
