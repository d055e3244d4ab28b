import SorobanKit.TokenSupply

set_option autoImplicit false

/-!
# Supply conservation and minting authority over whole runs

Both laws are invariants of every run up to one defect each. The multi-recipient
transfers destroy what is listed for the sender itself, and `burn_from` accepts a
negative amount, which creates tokens without the admin; made before `initialize`, the
latter also leaves balances behind that the reset of the supply does not see.
-/
namespace SorobanKit.Token
open HostBalances HostInvocation HostRuns

def Conserved (s : State) : Prop :=
  totalSupply s = total s.balance ∧ NonnegEntries s.balance

/-- Neither does `initialize` find tokens, nor does a multi-recipient transfer list its
    own sender. -/
def KeepsSupply (s : State) (i : Invocation) : Prop :=
  match i.call with
  | .initializeToken _ _ _ _ _ => s.admin = none → totalSupply s = 0
  | .transferToMany source recipients => ∀ x ∈ recipients, x.1 ≠ source
  | .transferBatch source transfers => ∀ x ∈ transfers, x.1 ≠ source
  | _ => True

theorem selfListed_eq_zero {source : Address} {recipients : List (Address × ℤ)}
    (h : ∀ x ∈ recipients, x.1 ≠ source) : selfListed source recipients = 0 := by
  have hnil : recipients.filter (fun x => source = x.1) = [] := by
    rw [List.filter_eq_nil_iff]
    intro x hx
    simpa using (h x hx).symm
  simp [selfListed, hnil]

theorem KeepsSupply.lost_eq_zero {s : State} {i : Invocation} (h : KeepsSupply s i) :
    i.call.lost = 0 := by
  unfold KeepsSupply at h
  cases hc : i.call <;> simp only [hc] at h
  case transferToMany => exact selfListed_eq_zero h
  case transferBatch => exact selfListed_eq_zero h
  all_goals rfl

theorem conserved_step {d : Deployment} {s t : State} {i : Invocation} (hs : Conserved s)
    (hk : KeepsSupply s i) (h : exec d i s = .ok t) : Conserved t := by
  obtain ⟨hsum, hnonneg⟩ := hs
  cases exec_move h with
  | idle hb hs hm ha => exact ⟨by rw [totalSupply, hs, hb]; exact hsum, by rw [hb]; exact hnonneg⟩
  | created ha hb hs hm hc ht =>
    obtain ⟨_, _, _, _, _, hc⟩ := hc
    have hzero : totalSupply s = 0 := by
      simp only [KeepsSupply, hc] at hk
      exact hk ha
    exact ⟨by rw [hs, hb, ← hsum, hzero], by rw [hb]; exact hnonneg⟩
  | minted amount hmint hpos ha hb hs hm hcap hn ht => exact ⟨by omega, hn hnonneg⟩
  | burned amount hneg hb hs hm hn ht => exact ⟨by omega, hn hnonneg⟩
  | moved hb hlost hs hm hn ht =>
    have hzero := hk.lost_eq_zero
    have hsupply : totalSupply t = totalSupply s := by rw [totalSupply, hs]; rfl
    exact ⟨by omega, hn hnonneg⟩

theorem selfListed_pos {source : Address} {recipients : List (Address × ℤ)}
    (hpos : ∀ x ∈ recipients, 0 < x.2) (h : ¬ ∀ x ∈ recipients, x.1 ≠ source) :
    0 < selfListed source recipients := by
  push Not at h
  obtain ⟨x, hx, hself⟩ := h
  have hmem : x ∈ recipients.filter (fun x => source = x.1) :=
    List.mem_filter.mpr ⟨hx, by simp [hself]⟩
  have hle : x.2 ≤ selfListed source recipients := by
    apply List.single_le_sum _ _ (List.mem_map_of_mem hmem)
    intro v hv
    obtain ⟨y, hy, rfl⟩ := List.mem_map.mp hv
    exact (hpos y (List.mem_filter.mp hy).1).le
  have := hpos x hx
  omega

theorem debitOnceCreditEach_conserved {d : Deployment} {ctx : Context} {source : Address}
    {recipients : List (Address × ℤ)} {s t : State} (hs : Conserved s) (ht : Conserved t)
    (h : debitOnceCreditEach d ctx source recipients s = .ok t) :
    ∀ x ∈ recipients, x.1 ≠ source := by
  obtain ⟨hpos, b, rfl, htotal, _⟩ := debitOnceCreditEach_ok h
  by_contra hself
  have hlost := selfListed_pos hpos hself
  have hbefore := hs.1
  have hafter : totalSupply s = total b := ht.1
  omega

/-- From a conserving state the condition is exact: a returning call conserves the
    supply if and only if it meets it. -/
theorem conserved_step_iff {d : Deployment} {s t : State} {i : Invocation} (hs : Conserved s)
    (h : exec d i s = .ok t) : Conserved t ↔ KeepsSupply s i := by
  refine ⟨fun ht => ?_, fun hk => conserved_step hs hk h⟩
  unfold exec at h
  unfold KeepsSupply
  cases hc : i.call <;> simp only [hc] at h
  case initializeToken =>
    intro _
    obtain ⟨_, _, hb, hsupply, _⟩ := initializeToken_ok h
    rw [hs.1, ← hb, ← ht.1, hsupply]
  case transferToMany => exact debitOnceCreditEach_conserved hs ht h
  case transferBatch => exact debitOnceCreditEach_conserved hs ht h
  all_goals trivial

theorem conserved_empty : Conserved State.empty := ⟨rfl, nonneg_empty⟩

/-- In every state reached by a run whose calls all keep the supply, the total supply is
    the sum of the balance entries and no entry is negative. -/
theorem supply_conserved (d : Deployment) (is : List Invocation)
    (h : Along (exec d) KeepsSupply State.empty is) : Conserved (run d State.empty is) :=
  run_invariant_along (fun _ _ _ hs hk ht => conserved_step hs hk ht) conserved_empty h

def demoDeployment : Deployment where
  features := ⟨true, true, true, true⟩
  contractAddress := ⟨100⟩
  maxEntryTtl := 6312000
  ed25519Verify := fun _ _ _ => false

def demoAdmin : Address := ⟨0⟩
def demoAlice : Address := ⟨1⟩
def demoBob : Address := ⟨2⟩

def demoCreate (cap : Option ℤ) : Invocation :=
  { sequence := 1, auths := [demoAdmin], call := .initializeToken demoAdmin "Demo" "DMO" 7 cap }

def demoMint : Invocation :=
  { sequence := 2, auths := [demoAdmin], call := .mint demoAlice 100 }

def demoPay (recipients : List (Address × ℤ)) : Invocation :=
  { sequence := 3, auths := [demoAlice], call := .transferToMany demoAlice recipients }

def demoConserving : List Invocation :=
  [demoCreate none, demoMint, demoPay [(demoBob, 20), (demoBob, 10)]]

theorem supply_conserved_demo : Conserved (run demoDeployment State.empty demoConserving) ∧
    balance (run demoDeployment State.empty demoConserving) demoBob = 30 := by
  have hpay : ∀ x ∈ [(demoBob, (20 : ℤ)), (demoBob, 10)], x.1 ≠ demoAlice := by decide
  refine ⟨supply_conserved demoDeployment demoConserving ⟨fun _ => rfl, trivial, hpay, trivial⟩, ?_⟩
  decide +kernel

/-- Alice holds 100 and pays 10 to herself and 20 to Bob: 30 are debited, 20 credited. -/
theorem supply_not_conserved : ¬ Conserved (run demoDeployment State.empty
    [demoCreate none, demoMint, demoPay [(demoAlice, 10), (demoBob, 20)]]) := by
  rintro ⟨hsum, _⟩
  revert hsum
  decide +kernel

/-- The condition leaves out `burn_from` with a negative amount. -/
def NonnegBurn (_ : State) (i : Invocation) : Prop :=
  match i.call with
  | .burnFrom _ _ amount => 0 ≤ amount
  | _ => True

structure SupplyBounds (d : Deployment) (s : State) : Prop where
  nonneg : NonnegEntries s.balance
  covered : total s.balance ≤ totalSupply s
  fresh : s.admin = none → totalSupply s = 0
  capped : ∀ cap, d.features.cappedSupply → s.maxSupply = some cap → totalSupply s ≤ cap

theorem supplyBounds_empty (d : Deployment) : SupplyBounds d State.empty where
  nonneg := nonneg_empty
  covered := le_refl _
  fresh := fun _ => rfl
  capped := fun _ _ h => nomatch h

theorem NonnegBurn.amount_nonneg {s : State} {i : Invocation} {amount : ℤ} (h : NonnegBurn s i)
    (hneg : amount ≤ 0 → ∃ spender account, i.call = .burnFrom spender account amount) :
    0 ≤ amount := by
  by_contra hlt
  obtain ⟨_, _, hc⟩ := hneg (by omega)
  simp only [NonnegBurn, hc] at h
  omega

theorem supplyBounds_step {d : Deployment} {s t : State} {i : Invocation} (hs : SupplyBounds d s)
    (hi : NonnegBurn s i) (h : exec d i s = .ok t) : SupplyBounds d t := by
  obtain ⟨hnonneg, hcovered, hfresh, hcapped⟩ := hs
  cases exec_move h with
  | idle hb hs hm ha =>
    have hsupply : totalSupply t = totalSupply s := by rw [totalSupply, hs]; rfl
    refine ⟨by rw [hb]; exact hnonneg, by rw [hb, hsupply]; exact hcovered, ?_, ?_⟩
    · intro ht
      rw [hsupply, hfresh (ha ht)]
    · intro cap hf hcap
      rw [hsupply]
      exact hcapped cap hf (hm ▸ hcap)
  | created ha hb hs hm hc ht =>
    have hzero := hfresh ha
    refine ⟨by rw [hb]; exact hnonneg, by rw [hb]; omega, fun hnone => absurd hnone ht, ?_⟩
    intro cap hf hcap
    rcases hm with hm | ⟨cap', hpos, hm⟩
    · have := hcapped cap hf (hm ▸ hcap)
      omega
    · rw [hcap] at hm
      cases hm
      omega
  | minted amount hmint hpos ha hb hs hm hcap hn ht =>
    refine ⟨hn hnonneg, by omega, ?_, fun cap hf hc => hcap cap hf (hm ▸ hc)⟩
    intro hnone
    obtain ⟨admin, _, ha⟩ := ha
    rw [ht, ha] at hnone
    cases hnone
  | burned amount hneg hb hs hm hn ht =>
    have hpos := hi.amount_nonneg hneg
    have htotal := (hn hnonneg).total_nonneg
    refine ⟨hn hnonneg, by omega, ?_, ?_⟩
    · intro hnone
      have := hfresh (ht ▸ hnone)
      omega
    · intro cap hf hcap
      have := hcapped cap hf (hm ▸ hcap)
      omega
  | moved hb hlost hs hm hn ht =>
    have hsupply : totalSupply t = totalSupply s := by rw [totalSupply, hs]; rfl
    refine ⟨hn hnonneg, by omega, fun hnone => by rw [hsupply, hfresh (ht ▸ hnone)], ?_⟩
    intro cap hf hcap
    rw [hsupply]
    exact hcapped cap hf (hm ▸ hcap)

theorem supply_raised {d : Deployment} {s t : State} {i : Invocation} (hs : SupplyBounds d s)
    (hi : NonnegBurn s i) (h : exec d i s = .ok t) (hlt : totalSupply s < totalSupply t) :
    i.call.isMint ∧ ∃ admin ∈ i.auths, s.admin = some admin := by
  cases exec_move h with
  | idle hb hs hm ha => simp [totalSupply, hs] at hlt
  | created ha hb hsupply hm hc ht =>
    have := hs.fresh ha
    omega
  | minted amount hmint hpos ha hb hs hm hcap hn ht => exact ⟨hmint, ha⟩
  | burned amount hneg hb hs hm hn ht =>
    have := hi.amount_nonneg hneg
    omega
  | moved hb hlost hs hm hn ht => simp [totalSupply, hs] at hlt

/-- In every run without negative `burn_from` amounts only mints by the admin raise the
    supply, and a configured cap is never exceeded. -/
theorem minting_authority (d : Deployment) (is : List Invocation) (i : Invocation)
    (h : Along (exec d) NonnegBurn State.empty is)
    (hi : NonnegBurn (run d State.empty is) i) :
    (totalSupply (run d State.empty is) <
        totalSupply (step (exec d) (run d State.empty is) i) →
      i.call.isMint ∧ ∃ admin ∈ i.auths, (run d State.empty is).admin = some admin) ∧
    (∀ cap, d.features.cappedSupply → (run d State.empty is).maxSupply = some cap →
      totalSupply (run d State.empty is) ≤ cap) := by
  have hs : SupplyBounds d (run d State.empty is) :=
    run_invariant_along (fun _ _ _ hs hk ht => supplyBounds_step hs hk ht)
      (supplyBounds_empty d) h
  refine ⟨fun hlt => ?_, hs.capped⟩
  rcases step_cases (exec d) (run d State.empty is) i with hok | hid
  · exact supply_raised hs hi hok hlt
  · rw [hid] at hlt
    omega

/-- The condition is exact: a returning `burn_from` raises the supply as soon as its amount
    is negative. -/
theorem burnFrom_raises_iff {d : Deployment} {ctx : Context} {spender account : Address}
    {amount : ℤ} {s t : State} (h : burnFrom d ctx spender account amount s = .ok t) :
    totalSupply s < totalSupply t ↔ amount < 0 := by
  obtain ⟨u, hu, h⟩ := burnFrom_ok h
  obtain ⟨a, rfl⟩ := validateAndDeductAllowance_ok hu
  obtain ⟨b, n, rfl, _, _, hn, _⟩ := removeTokens_ok h
  have hsupply : n = totalSupply s - amount := hn
  have ht : totalSupply { s with allowance := a, balance := b, supply := some n } = n := rfl
  rw [ht]
  omega

def demoBurnFrom (amount : ℤ) : Invocation :=
  { sequence := 3, auths := [demoBob], call := .burnFrom demoBob demoBob amount }

theorem minting_authority_demo :
    totalSupply (run demoDeployment State.empty [demoCreate (some 150), demoMint]) ≤ 150 :=
  (minting_authority demoDeployment [demoCreate (some 150), demoMint] demoMint
    ⟨trivial, trivial, trivial⟩ trivial).2 150 rfl (by decide +kernel)

/-- Bob, who is not the admin, burns -100 from himself under a cap of 10. -/
theorem burnFrom_mints_past_cap :
    let s := run demoDeployment State.empty [demoCreate (some 10)]
    let t := step (exec demoDeployment) s (demoBurnFrom (-100))
    totalSupply s < totalSupply t ∧ (demoBurnFrom (-100)).call.isMint = false ∧
      t.maxSupply = some 10 ∧ ¬ totalSupply t ≤ 10 ∧ demoAdmin ∉ (demoBurnFrom (-100)).auths := by
  decide +kernel

end SorobanKit.Token
