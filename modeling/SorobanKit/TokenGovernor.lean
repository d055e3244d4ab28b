import SorobanKit.HostRuns
import SorobanKit.TokenAuthority

set_option autoImplicit false

/-!
# A contract in the admin's office

A contract that is the token's admin signs for the calls it makes on the token, and everybody else
calls without its signature. `Governed` is what becomes of the token over one or several calls, when
`Decided` are the calls the contract stands behind: the office stays with the contract until one
of them hands it over, and what the admin decides is changed by one of them or not at all.
-/
namespace SorobanKit.Token
open HostInvocation HostRuns

/-- The admin offers the office or gives it away. -/
def HandsOver (k : Call) : Prop :=
  (∃ newAdmin, k = .proposeAdmin newAdmin) ∨ ∃ newAdmin, k = .setAdmin newAdmin

/-- `holder` is the admin, and nobody else is offered the office. -/
structure Holds (holder : Address) (b : State) : Prop where
  admin : b.admin = some holder
  pending : b.pendingAdmin = none

structure Governed (holder : Address) (Decided : Call → Prop) (Burns : Prop) (b c : State) : Prop where
  office : (∃ k, Decided k ∧ HandsOver k) ∨ Holds holder c
  decision : (∃ k, Decided k ∧ k.isAdmin) ∨
    c.authority = b.authority ∧ (totalSupply b < totalSupply c → Burns)

theorem HandsOver.isAdmin {k : Call} (h : HandsOver k) : k.isAdmin := by
  rcases h with ⟨newAdmin, rfl⟩ | ⟨newAdmin, rfl⟩ <;> rfl

section Calls
variable {d : Deployment} {holder : Address} {Decided : Call → Prop} {Burns : Prop}
  {i : Invocation} {b c : State}

theorem exec_holds (hb : Holds holder b) (h : exec d i b = .ok c) :
    HandsOver i.call ∧ holder ∈ i.auths ∨ Holds holder c := by
  have hkept : ∀ o : Offices, o.admin = some holder → o.pendingAdmin = none → c.offices = o →
      Holds holder c := by
    intro o ho hnone hc
    exact ⟨(congrArg Offices.admin hc).trans ho, (congrArg Offices.pendingAdmin hc).trans hnone⟩
  cases exec_officeMove h with
  | idle hcall h => exact .inr (hkept b.offices hb.admin hb.pending h)
  | opened admin name symbol decimals maxSupply hcall hnone h =>
    rw [hb.admin] at hnone
    cases hnone
  | proposed newAdmin admin hcall hadmin hauth h =>
    rw [hb.admin] at hadmin
    cases hadmin
    exact .inl ⟨.inl ⟨newAdmin, hcall⟩, hauth⟩
  | accepted pending hcall hpending hauth h =>
    rw [hb.pending] at hpending
    cases hpending
  | withdrawn admin hcall hadmin hauth h => exact .inr (hkept _ hb.admin rfl h)
  | assigned newAdmin admin hcall hadmin hauth h =>
    rw [hb.admin] at hadmin
    cases hadmin
    exact .inl ⟨.inr ⟨newAdmin, hcall⟩, hauth⟩
  | registered owner publicKey hcall hauth h => exact .inr (hkept _ hb.admin hb.pending h)
  | revoked owner nonce hcall hauth h => exact .inr (hkept _ hb.admin hb.pending h)
  | permitted owner spender amount nonce expiryLedger signature publicKey hcall hledger hnonce hlive
      hkey hverify hallowance h => exact .inr (hkept _ hb.admin hb.pending h)

theorem governed_refl (hb : Holds holder b) : Governed holder Decided Burns b b :=
  ⟨.inr hb, .inr ⟨rfl, fun hless => absurd hless (lt_irrefl _)⟩⟩

/-- Only the calls of an admin, and those that burn, are of interest. -/
theorem Governed.mono {Others : Call → Prop} {Burnt : Prop} (h : Governed holder Decided Burns b c)
    (hcalls : ∀ k, Decided k → k.isAdmin → Others k) (hburns : Burns → Burnt) :
    Governed holder Others Burnt b c := by
  have hsome : ∀ {p : Call → Prop}, (∀ k, p k → k.isAdmin) → (∃ k, Decided k ∧ p k) →
      ∃ k, Others k ∧ p k :=
    fun hp ⟨k, hk, hpk⟩ => ⟨k, hcalls k hk (hp k hpk), hpk⟩
  exact ⟨h.office.imp_left (hsome fun _ hover => hover.isAdmin),
    h.decision.imp (hsome fun _ hadmin => hadmin)
      fun ⟨hsame, hburn⟩ => ⟨hsame, fun hless => hburns (hburn hless)⟩⟩

/-- Who hands the office over decides, so what happens afterwards needs no answer. -/
theorem Governed.trans {e : State} (h : Governed holder Decided Burns b c)
    (hmore : Holds holder c → Governed holder Decided Burns c e) :
    Governed holder Decided Burns b e := by
  rcases h.office with ⟨k, hk, hover⟩ | hc
  · exact ⟨.inl ⟨k, hk, hover⟩, .inl ⟨k, hk, hover.isAdmin⟩⟩
  · obtain ⟨hoffice, hdecision⟩ := hmore hc
    refine ⟨hoffice, ?_⟩
    rcases h.decision with hdecided | ⟨hsame, hburn⟩
    · exact .inl hdecided
    · rcases hdecision with hdecided | ⟨hsame', hburn'⟩
      · exact .inl hdecided
      · refine .inr ⟨hsame'.trans hsame, fun hless => ?_⟩
        by_cases hfirst : totalSupply b < totalSupply c
        · exact hburn hfirst
        · exact hburn' (by omega)

theorem exec_governed (hb : Holds holder b) (h : exec d i b = .ok c) :
    Governed holder (· = i.call) i.call.BurnsNegative b c := by
  have hsome : b.admin.isSome := by rw [hb.admin]; rfl
  refine ⟨?_, ?_⟩
  · exact (exec_holds hb h).imp_left fun ⟨hover, _⟩ => ⟨i.call, rfl, hover⟩
  · exact (exec_authority h hsome hb.pending).imp_left fun ⟨hadmin, _⟩ => ⟨i.call, rfl, hadmin⟩

/-- A call the holder has not signed. -/
theorem exec_governed_outside (hb : Holds holder b) (hauth : holder ∉ i.auths)
    (h : exec d i b = .ok c) : Governed holder Decided i.call.BurnsNegative b c := by
  have hsome : b.admin.isSome := by rw [hb.admin]; rfl
  refine ⟨.inr ?_, .inr ?_⟩
  · rcases exec_holds hb h with ⟨_, hsigned⟩ | hc
    · exact absurd hsigned hauth
    · exact hc
  · rcases exec_authority h hsome hb.pending with ⟨_, admin, hadmin, hsigned⟩ | hsame
    · rw [hb.admin] at hadmin
      cases hadmin
      exact absurd hsigned hauth
    · exact hsame

/-- The calls that a contract makes in one invocation; one that fails takes all of it down. -/
def callAll (d : Deployment) (ctx : Context) (calls : List Call) (b : State) : Option State :=
  calls.foldlM (fun b call => (exec d { ctx with call := call } b).toOption) b

theorem callAll_cons {ctx : Context} {call : Call} {calls : List Call}
    (h : callAll d ctx (call :: calls) b = some c) :
    ∃ e, exec d { ctx with call := call } b = .ok e ∧ callAll d ctx calls e = some c := by
  obtain ⟨e, hfirst, hrest⟩ := Option.bind_eq_some_iff.mp h
  refine ⟨e, ?_, hrest⟩
  dsimp only at hfirst
  cases hok : exec d { ctx with call := call } b with
  | ok e' =>
    rw [hok] at hfirst
    cases hfirst
    rfl
  | error code =>
    rw [hok] at hfirst
    cases hfirst

theorem callAll_governed {ctx : Context} {calls : List Call} (hb : Holds holder b)
    (h : callAll d ctx calls b = some c) :
    Governed holder (· ∈ calls) (∃ k ∈ calls, k.BurnsNegative) b c := by
  induction calls generalizing b with
  | nil =>
    cases h
    exact governed_refl hb
  | cons call calls ih =>
    obtain ⟨e, hfirst, hrest⟩ := callAll_cons h
    have hone : Governed holder (· ∈ call :: calls) (∃ k ∈ call :: calls, k.BurnsNegative) b e :=
      (exec_governed hb hfirst).mono (fun k hk _ => by simp [hk])
        fun hburn => ⟨call, List.mem_cons_self, hburn⟩
    refine hone.trans fun he => (ih he hrest).mono (fun k hk _ => List.mem_cons_of_mem _ hk) ?_
    rintro ⟨k, hk, hburn⟩
    exact ⟨k, List.mem_cons_of_mem _ hk, hburn⟩

end Calls

section Reading
variable {α : Type} {d : Deployment} {target : α → Address} {decode : α → Option Call}
  {made : List α} {calls : List Call}

/-- What the token reads of the calls made; one on the token that it cannot read fails. -/
def readAll (d : Deployment) (target : α → Address) (decode : α → Option Call) (made : List α) :
    Option (List Call) :=
  (made.filter fun call => target call = d.contractAddress).mapM decode

theorem mem_mapM_some {f : α → Option Call} (h : made.mapM f = some calls) {k : Call}
    (hk : k ∈ calls) : ∃ call ∈ made, f call = some k := by
  induction made generalizing calls with
  | nil =>
    cases h
    cases hk
  | cons call made ih =>
    rw [List.mapM_cons] at h
    obtain ⟨first, hfirst, h⟩ := Option.bind_eq_some_iff.mp h
    obtain ⟨rest, hrest, h⟩ := Option.bind_eq_some_iff.mp h
    cases h
    rcases List.mem_cons.mp hk with rfl | hk
    · exact ⟨call, List.mem_cons_self, hfirst⟩
    · obtain ⟨other, hother, hdecode⟩ := ih hrest hk
      exact ⟨other, List.mem_cons_of_mem _ hother, hdecode⟩

theorem mem_readAll (h : readAll d target decode made = some calls) {k : Call} (hk : k ∈ calls) :
    ∃ call ∈ made, target call = d.contractAddress ∧ decode call = some k := by
  obtain ⟨call, hcall, hdecode⟩ := mem_mapM_some h hk
  obtain ⟨hmade, htarget⟩ := List.mem_filter.mp hcall
  exact ⟨call, hmade, by simpa using htarget, hdecode⟩

end Reading

section History
variable {σ ι : Type} {holder : Address} {Decided : Entry σ ι → Call → Prop}

/-- A decision of the past offered the office or gave it away. -/
def HandedOver (Decided : Entry σ ι → Call → Prop) (past : List (Entry σ ι)) : Prop :=
  ∃ e ∈ past, ∃ k, Decided e k ∧ HandsOver k

theorem handedOver_snoc {past : List (Entry σ ι)} {b c : State} {e : Entry σ ι} {Burns : Prop}
    (hpast : HandedOver Decided past ∨ Holds holder b)
    (h : Holds holder b → Governed holder (Decided e) Burns b c) :
    HandedOver Decided (past ++ [e]) ∨ Holds holder c := by
  rcases hpast with ⟨e', he', hover⟩ | hb
  · exact .inl ⟨e', List.mem_append_left _ he', hover⟩
  · exact (h hb).office.imp_left fun hover =>
      ⟨e, List.mem_append_right _ (List.mem_singleton_self e), hover⟩

end History

end SorobanKit.Token
