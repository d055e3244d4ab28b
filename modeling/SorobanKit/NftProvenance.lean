import SorobanKit.NftEnumeration

set_option autoImplicit false

/-!
# Where an owner comes from

As long as all mints are batches, a token is minted under a number that no token had before, changes
hands by its owner's signature or by that of the spender the present owner approved, and is gone for
good once burned.
-/
namespace SorobanKit.Nft
open HostBalances HostInteger HostInvocation HostRuns

section Minting
variable {m m' : Minting} {target : Address} {uri : String}

theorem skipTaken_le {s : State} {steps next tokenId : ℕ} (h : skipTaken s steps next = .ok tokenId) :
    next ≤ tokenId := by
  induction steps generalizing next with
  | zero => cases h
  | succ steps ih =>
    unfold skipTaken at h
    split at h
    · simp only [bind_eq_ok, okOr_eq_ok, checkedAddU32_eq_some] at h
      obtain ⟨_, ⟨_, rfl⟩, h⟩ := h
      have hle := ih h
      omega
    · rw [pure_eq_ok] at h
      omega

/-- The numbers from `first` on that a loop of minting gave to `target`. -/
structure Fresh (s : State) (target : Address) (first : ℕ) (m : Minting) : Prop where
  later : first ≤ m.next
  owner : ∀ id, m.state.owner.lookup id = s.owner.lookup id ∨
    (s.owner.lookup id = none ∧ first ≤ id ∧ id < m.next ∧ m.state.owner.lookup id = some target)
  approval : m.state.approval = s.approval
  initialized : m.state.isInitialized = s.isInitialized
  admin : m.state.admin = s.admin

theorem Fresh.mint {s : State} {first : ℕ} (hm : Fresh s target first m)
    (h : mintNext target m uri = .ok m') : Fresh s target first m' := by
  simp only [mintNext, bind_eq_ok, okOr_eq_ok, checkedAddU32_eq_some, pure_eq_ok] at h
  obtain ⟨tokenId, hskip, _, ⟨_, rfl⟩, _, _, rfl⟩ := h
  have hle := skipTaken_le hskip
  have hfree := skipTaken_ok hskip
  have hlater := hm.later
  refine ⟨?_, ?_, hm.approval, hm.initialized, hm.admin⟩
  · dsimp only
    omega
  · intro id
    simp only [enumerableAdd]
    rw [lookup_insert_ite]
    split
    · next heq =>
      subst heq
      refine .inr ⟨?_, by omega, Nat.lt_succ_self id, rfl⟩
      rcases hm.owner id with hsame | ⟨hnone, _⟩
      · rw [← hsame]
        exact hfree
      · exact hnone
    · rcases hm.owner id with hsame | ⟨hnone, hfirst, hnext, htarget⟩
      · exact .inl hsame
      · exact .inr ⟨hnone, hfirst, by omega, htarget⟩

theorem Fresh.all {s : State} {first : ℕ} {tokenUris : List String} (hm : Fresh s target first m)
    (h : tokenUris.foldlM (mintNext target) m = .ok m') : Fresh s target first m' := by
  induction tokenUris generalizing m with
  | nil =>
    rw [List.foldlM_nil, pure_eq_ok] at h
    rw [← h]
    exact hm
  | cons uri rest ih =>
    rw [List.foldlM_cons, bind_eq_ok] at h
    obtain ⟨m₁, hnext, h⟩ := h
    exact ih (hm.mint hnext) h

end Minting

section Moves
variable {i : Invocation} {s t : State}

def nextId (s : State) : ℕ := s.nextTokenId.getD 1

theorem enumerableRemove_owner (source : Address) (tokenId : ℕ) (s : State) :
    (enumerableRemove source tokenId s).owner = s.owner ∧
      (enumerableRemove source tokenId s).approval = s.approval ∧
      (enumerableRemove source tokenId s).nextTokenId = s.nextTokenId ∧
      (enumerableRemove source tokenId s).isInitialized = s.isInitialized := by
  rw [enumerableRemove_eq]
  exact ⟨rfl, rfl, rfl, rfl⟩

theorem reassignAll_owner (source target : Address) (tokenIds : List ℕ) (s : State) :
    let t := tokenIds.foldl (fun s tokenId => reassign source target tokenId s) s
    (∀ id, t.owner.lookup id = if id ∈ tokenIds then some target else s.owner.lookup id) ∧
      (∀ id, t.approval.lookup id = if id ∈ tokenIds then none else s.approval.lookup id) ∧
      t.nextTokenId = s.nextTokenId ∧ t.isInitialized = s.isInitialized := by
  induction tokenIds generalizing s with
  | nil => simp
  | cons first rest ih =>
    rw [List.foldl_cons]
    obtain ⟨howner, happroval, hnext, hinit⟩ := ih (reassign source target first s)
    have heq := reassign_eq source target first s
    refine ⟨fun id => ?_, fun id => ?_, ?_, ?_⟩
    · rw [howner id, heq]
      by_cases hid : id = first
      · simp [hid, lookup_insert_ite]
      · simp [hid]
    · rw [happroval id, heq]
      by_cases hid : id = first
      · simp [hid, lookup_erase_ite]
      · simp [hid]
    · rw [hnext, heq]
    · rw [hinit, heq]

/-- What a returning call does to owners and approvals. -/
inductive OwnerMove (i : Invocation) (s t : State) : Prop where
  | initialized (before : s.isInitialized = false) (owner : t.owner = s.owner)
      (approval : t.approval = s.approval)
  | approved (tokenId : ℕ) (spender owner : Address) (call : i.call = .approve tokenId spender)
      (held : s.owner.lookup tokenId = some owner) (signed : owner ∈ i.auths)
      (result : t = { s with approval := s.approval.insert tokenId spender })
  | minted (target admin : Address) (tokenUris : List String)
      (call : i.call = .mintBatch target tokenUris) (office : s.admin = some admin)
      (signed : admin ∈ i.auths) (later : nextId s ≤ nextId t)
      (owner : ∀ id, t.owner.lookup id = s.owner.lookup id ∨ (s.owner.lookup id = none ∧
        nextId s ≤ id ∧ id < nextId t ∧ t.owner.lookup id = some target))
      (approval : t.approval = s.approval)
  | sent (source target : Address) (tokenIds : List ℕ) (signer : Address)
      (call : i.call = .transferBatch source target tokenIds ∨
        ∃ id, tokenIds = [id] ∧ i.call = .transferFrom signer source target id)
      (signed : signer ∈ i.auths) (held : ∀ id ∈ tokenIds, s.owner.lookup id = some source)
      (allowed : signer = source ∨ ∀ id ∈ tokenIds, s.approval.lookup id = some signer)
      (owner : ∀ id, t.owner.lookup id = if id ∈ tokenIds then some target else s.owner.lookup id)
      (approval : ∀ id, t.approval.lookup id = if id ∈ tokenIds then none else s.approval.lookup id)
      (next : nextId t = nextId s)
  | burned (source : Address) (tokenId : ℕ) (signed : source ∈ i.auths)
      (held : s.owner.lookup tokenId = some source)
      (owner : ∀ id, t.owner.lookup id = if id = tokenId then none else s.owner.lookup id)
      (approval : ∀ id, t.approval.lookup id = if id = tokenId then none else s.approval.lookup id)
      (next : nextId t = nextId s)

theorem exec_ownerMove (h : exec i s = .ok t) :
    OwnerMove i s t ∧ t.isInitialized = true ∧
      (s.isInitialized = false → ∃ admin name symbol maxSupply royaltyBps recipient soulbound,
        i.call = .initializeNft admin name symbol maxSupply royaltyBps recipient soulbound) := by
  have hset : requireInitialized s = .ok () → s.isInitialized = true := by
    intro hinit
    simpa [requireInitialized] using hinit
  unfold exec at h
  cases hcall : i.call with
  | initializeNft =>
    simp only [hcall, initializeNft, bind_eq_ok, rejectIf_eq_ok, pure_eq_ok] at h
    obtain ⟨_, hnew, _, _, _, _, _, _, rfl⟩ := h
    exact ⟨.initialized (by simpa using hnew) rfl rfl, rfl, fun _ => ⟨_, _, _, _, _, _, _, rfl⟩⟩
  | mintBatch target tokenUris =>
    simp only [hcall, mintBatch, bind_eq_ok, okOr_eq_ok, requireAuth_eq_ok, pure_eq_ok] at h
    obtain ⟨⟨ids, u⟩, ⟨_, hinit, admin, hadmin, _, hauth, h⟩, rfl⟩ := h
    have hbefore := hset hinit
    split at h
    · rw [pure_eq_ok, Prod.mk.injEq] at h
      obtain ⟨_, rfl⟩ := h
      exact ⟨.minted target admin tokenUris hcall hadmin hauth (le_refl _) (fun _ => .inl rfl) rfl,
        hbefore, fun hfalse => by rw [hbefore] at hfalse; cases hfalse⟩
    · simp only [mintAll, bind_eq_ok, pure_eq_ok, Prod.mk.injEq] at h
      obtain ⟨_, _, m, hloop, _, rfl⟩ := h
      have hstart : Fresh s target (nextId s) ⟨s, s.nextTokenId.getD 1, s.totalSupply.getD 0, []⟩ :=
        ⟨le_refl _, fun _ => .inl rfl, rfl, rfl, rfl⟩
      have hm := hstart.all hloop
      exact ⟨.minted target admin tokenUris hcall hadmin hauth hm.later hm.owner hm.approval,
        hm.initialized.trans hbefore, fun hfalse => by rw [hbefore] at hfalse; cases hfalse⟩
  | transferBatch source target tokenIds =>
    simp only [hcall, transferBatch, bind_eq_ok, requireAuth_eq_ok, pure_eq_ok] at h
    obtain ⟨_, hinit, _, _, _, hauth, _, howners, rfl⟩ := h
    have hbefore := hset hinit
    obtain ⟨howner, happroval, hnext, hkept⟩ := reassignAll_owner source target tokenIds s
    refine ⟨.sent source target tokenIds source (.inl hcall) hauth (fun id hid => ?_) (.inl rfl) howner
      happroval ?_, hkept.trans hbefore, fun hfalse => by rw [hbefore] at hfalse; cases hfalse⟩
    · exact requireOwner_ok (forM_ok howners id hid)
    · exact congrArg (fun n => n.getD 1) hnext
  | transferFrom spender source target tokenId =>
    simp only [hcall, transferFrom, bind_eq_ok, requireAuth_eq_ok, rejectIf_eq_ok, not_not,
      pure_eq_ok] at h
    obtain ⟨_, hinit, _, _, _, hauth, _, howner, _, happroved, rfl⟩ := h
    have hbefore := hset hinit
    obtain ⟨howners, happroval, hnext, hkept⟩ := reassignAll_owner source target [tokenId] s
    refine ⟨.sent source target [tokenId] spender (.inr ⟨tokenId, rfl, hcall⟩) hauth ?_ (.inr ?_) howners
      happroval ?_, hkept.trans hbefore, fun hfalse => by rw [hbefore] at hfalse; cases hfalse⟩
    · intro id hid
      rw [List.mem_singleton.mp hid]
      exact requireOwner_ok howner
    · intro id hid
      rw [List.mem_singleton.mp hid]
      exact happroved
    · exact congrArg (fun n => n.getD 1) hnext
  | burn source tokenId =>
    simp only [hcall, burn, bind_eq_ok, requireAuth_eq_ok, pure_eq_ok] at h
    obtain ⟨_, hinit, _, hauth, _, howner, rfl⟩ := h
    have hbefore := hset hinit
    obtain ⟨howners, happrovals, hnext, hkept⟩ := enumerableRemove_owner source tokenId s
    refine ⟨.burned source tokenId hauth (requireOwner_ok howner) (fun id => ?_) (fun id => ?_) ?_,
      hkept.trans hbefore, fun hfalse => by rw [hbefore] at hfalse; cases hfalse⟩
    · rw [← howners]
      exact lookup_erase_ite _ _ _
    · rw [← happrovals]
      exact lookup_erase_ite _ _ _
    · exact congrArg (fun n => n.getD 1) hnext
  | approve tokenId spender =>
    simp only [hcall, approve, bind_eq_ok, okOr_eq_ok, requireAuth_eq_ok, pure_eq_ok] at h
    obtain ⟨_, hinit, owner, howner, _, hauth, rfl⟩ := h
    have hbefore := hset hinit
    exact ⟨.approved tokenId spender owner hcall howner hauth rfl, hbefore,
      fun hfalse => by rw [hbefore] at hfalse; cases hfalse⟩

end Moves

/-- An approval by the present owner, who has owned the token ever since. -/
def Granted (past : List (Entry State Invocation)) (id : ℕ) (owner spender : Address) : Prop :=
  ∃ earlier e later, past = earlier ++ e :: later ∧ e.invocation.call = .approve id spender ∧
    e.before.owner.lookup id = some owner ∧ owner ∈ e.invocation.auths ∧
    ∀ x ∈ later, x.after.owner.lookup id = some owner

/-- What a history says of the owners. -/
structure Descends (past : List (Entry State Invocation)) (s : State) : Prop where
  begun : s.isInitialized = false → past = [] ∧ s.owner = ∅ ∧ s.approval = ∅
  used : ∀ e ∈ past, ∀ id, e.after.owner.lookup id ≠ none → id < nextId s
  owned : ∀ id, s.owner.lookup id ≠ none → id < nextId s
  granted : ∀ id spender, s.approval.lookup id = some spender →
    ∃ owner, s.owner.lookup id = some owner ∧ Granted past id owner spender

theorem descends_empty : Descends [] State.empty where
  begun _ := ⟨rfl, rfl, rfl⟩
  used _ h := by cases h
  owned id h := absurd rfl h
  granted _ _ h := by cases h

theorem Granted.snoc {past : List (Entry State Invocation)} {id : ℕ} {owner spender : Address}
    {e : Entry State Invocation} (h : Granted past id owner spender)
    (he : e.after.owner.lookup id = some owner) : Granted (past ++ [e]) id owner spender := by
  obtain ⟨earlier, f, later, rfl, hcall, hheld, hsigned, hlater⟩ := h
  refine ⟨earlier, f, later ++ [e], by simp, hcall, hheld, hsigned, ?_⟩
  intro x hx
  rcases List.mem_append.mp hx with hx | hx
  · exact hlater x hx
  · rw [List.mem_singleton.mp hx]
    exact he

section Steps
variable {past : List (Entry State Invocation)} {i : Invocation} {s t : State}

/-- Numbers in use stay below the next one, when the next one does not fall. -/
theorem Descends.numbers (hs : Descends past s) (hnext : nextId s ≤ nextId t)
    (hnew : ∀ id, t.owner.lookup id ≠ none → s.owner.lookup id ≠ none ∨ id < nextId t) :
    (∀ e ∈ past ++ [⟨s, i, t⟩], ∀ id, e.after.owner.lookup id ≠ none → id < nextId t) ∧
      ∀ id, t.owner.lookup id ≠ none → id < nextId t := by
  have howned : ∀ id, t.owner.lookup id ≠ none → id < nextId t := by
    intro id hid
    rcases hnew id hid with hold | hlt
    · exact Nat.lt_of_lt_of_le (hs.owned id hold) hnext
    · exact hlt
  refine ⟨fun e he id hid => ?_, howned⟩
  rcases List.mem_append.mp he with he | he
  · exact Nat.lt_of_lt_of_le (hs.used e he id hid) hnext
  · obtain rfl := List.mem_singleton.mp he
    exact howned id hid

theorem Descends.kept_grant (hs : Descends past s) {id : ℕ} {spender : Address}
    (happroval : s.approval.lookup id = some spender)
    (howner : t.owner.lookup id = s.owner.lookup id) :
    ∃ owner, t.owner.lookup id = some owner ∧ Granted (past ++ [⟨s, i, t⟩]) id owner spender := by
  obtain ⟨owner, hheld, hgranted⟩ := hs.granted id spender happroval
  have hafter := howner.trans hheld
  exact ⟨owner, hafter, hgranted.snoc hafter⟩

theorem Descends.step (hs : Descends past s) (h : exec i s = .ok t) :
    Descends (past ++ [⟨s, i, t⟩]) t := by
  obtain ⟨hmove, hset, _⟩ := exec_ownerMove h
  have hbegun : t.isInitialized = false → past ++ [⟨s, i, t⟩] = [] ∧ t.owner = ∅ ∧ t.approval = ∅ := by
    intro hfalse
    rw [hset] at hfalse
    cases hfalse
  cases hmove with
  | initialized before owner approval =>
    obtain ⟨rfl, hnone, hunapproved⟩ := hs.begun before
    have hempty : ∀ id, t.owner.lookup id = none := by
      intro id
      rw [owner, hnone]
      rfl
    refine ⟨hbegun, fun e he id hid => ?_, fun id hid => absurd (hempty id) hid, fun id spender hid => ?_⟩
    · obtain rfl := List.mem_singleton.mp he
      exact absurd (hempty id) hid
    · rw [approval, hunapproved] at hid
      cases hid
  | approved tokenId spender owner call held signed result =>
    have hsame : t.owner = s.owner := by rw [result]
    have hnext : nextId t = nextId s := by
      rw [result]
      rfl
    obtain ⟨hused, howned⟩ := hs.numbers (i := i) hnext.ge fun id hid => .inl (by rwa [hsame] at hid)
    refine ⟨hbegun, hused, howned, fun id other hid => ?_⟩
    rw [result] at hid
    dsimp only at hid
    rw [lookup_insert_ite] at hid
    split at hid
    · next heq =>
      cases hid
      subst heq
      exact ⟨owner, by rw [hsame]; exact held, past, _, [], rfl, call, held, signed, by simp⟩
    · exact hs.kept_grant hid (by rw [hsame])
  | minted target admin tokenUris call office signed later owner approval =>
    obtain ⟨hused, howned⟩ := hs.numbers (i := i) later fun id hid => by
      rcases owner id with hsame | ⟨_, _, hlt, _⟩
      · exact .inl (by rwa [hsame] at hid)
      · exact .inr hlt
    refine ⟨hbegun, hused, howned, fun id spender hid => ?_⟩
    rw [approval] at hid
    obtain ⟨holder, hheld, _⟩ := hs.granted id spender hid
    refine hs.kept_grant hid ?_
    rcases owner id with hsame | ⟨hnone, _⟩
    · exact hsame
    · rw [hheld] at hnone
      cases hnone
  | sent source target tokenIds signer call signed held allowed owner approval next =>
    obtain ⟨hused, howned⟩ := hs.numbers (i := i) next.ge fun id hid => by
      rw [owner id] at hid
      split at hid
      · next hmem =>
        refine .inl ?_
        rw [held id hmem]
        exact Option.some_ne_none source
      · exact .inl hid
    refine ⟨hbegun, hused, howned, fun id spender hid => ?_⟩
    rw [approval id] at hid
    split at hid
    · cases hid
    · next hmem => exact hs.kept_grant hid (by rw [owner id, if_neg hmem])
  | burned source tokenId signed held owner approval next =>
    obtain ⟨hused, howned⟩ := hs.numbers (i := i) next.ge fun id hid => by
      rw [owner id] at hid
      split at hid
      · exact absurd rfl hid
      · exact .inl hid
    refine ⟨hbegun, hused, howned, fun id spender hid => ?_⟩
    rw [approval id] at hid
    split at hid
    · cases hid
    · next hne => exact hs.kept_grant hid (by rw [owner id, if_neg hne])

end Steps

/-- How a token came to a new owner, after what was called before. -/
inductive Passing (past : List (Entry State Invocation)) (e : Entry State Invocation) (id : ℕ) : Prop
    where
  | minted (admin target : Address) (office : e.before.admin = some admin)
      (signed : admin ∈ e.invocation.auths) (after : e.after.owner.lookup id = some target)
      (unused : ∀ f ∈ past, f.after.owner.lookup id = none)
  | sent (owner target : Address) (before : e.before.owner.lookup id = some owner)
      (after : e.after.owner.lookup id = some target) (signed : owner ∈ e.invocation.auths)
  | spent (owner spender target : Address) (before : e.before.owner.lookup id = some owner)
      (after : e.after.owner.lookup id = some target) (signed : spender ∈ e.invocation.auths)
      (granted : Granted past id owner spender)
  | burned (owner : Address) (before : e.before.owner.lookup id = some owner)
      (after : e.after.owner.lookup id = none) (signed : owner ∈ e.invocation.auths)

/-- In every run of these entry points, without the explicit `mint`, whenever the owner of a token
    changes: it is minted by the admin under a number that no token ever had, sent with the owner's
    signature, sent with the signature of a spender whom the very same owner approved while owning it
    without interruption, or burned with the owner's signature. -/
theorem ownership_provenance (is : List Invocation) (past later : List (Entry State Invocation))
    (e : Entry State Invocation) (h : history exec State.empty is = past ++ e :: later) (id : ℕ)
    (hchange : e.after.owner.lookup id ≠ e.before.owner.lookup id) : Passing past e id := by
  obtain ⟨hs, _, hexec⟩ := history_split (I := Descends) (P := fun _ _ => True)
    (fun _ _ _ _ hs _ h => hs.step h) descends_empty (along_true _ _ _) h
  cases (exec_ownerMove hexec).1 with
  | initialized before owner approval => exact absurd (by rw [owner]) hchange
  | approved tokenId spender owner call held signed result => exact absurd (by rw [result]) hchange
  | minted target admin tokenUris call office signed _ owner approval =>
    rcases owner id with hsame | ⟨_, hfirst, _, htarget⟩
    · exact absurd hsame hchange
    · refine .minted admin target office signed htarget fun f hf => ?_
      by_contra hused
      have hlt := hs.used f hf id hused
      omega
  | sent source target tokenIds signer call signed held allowed owner approval next =>
    have howner := owner id
    split at howner
    · next hmem =>
      rcases allowed with rfl | happroved
      · exact .sent signer target (held id hmem) howner signed
      · obtain ⟨holder, hheld, hgranted⟩ := hs.granted id signer (happroved id hmem)
        exact .spent holder signer target hheld howner signed hgranted
    · exact absurd howner hchange
  | burned source tokenId signed held owner approval next =>
    have howner := owner id
    split at howner
    · next heq =>
      rw [heq] at howner ⊢
      exact .burned source held howner signed
    · exact absurd howner hchange

/-- The calls that mint, approve, send by approval and burn. -/
def demoCareer : List Invocation :=
  [demoInitialize, demoMint, demoCall (.approve 2 demoAlice),
    demoCall (.transferFrom demoAlice demoAlice demoBob 2), demoCall (.burn demoAlice 1)]

theorem ownership_provenance_demo :
    ∃ past e later, history exec State.empty demoCareer = past ++ e :: later ∧
      e.after.owner.lookup 2 = some demoBob ∧ e.before.owner.lookup 2 = some demoAlice ∧
      Passing past e 2 := by
  have hsplit : history exec State.empty demoCareer =
      (history exec State.empty demoCareer).take 3 ++
        ⟨run State.empty (demoCareer.take 3), demoCall (.transferFrom demoAlice demoAlice demoBob 2),
          run State.empty (demoCareer.take 4)⟩ :: (history exec State.empty demoCareer).drop 4 := rfl
  refine ⟨_, _, _, hsplit, by decide +kernel, by decide +kernel,
    ownership_provenance demoCareer _ _ _ hsplit 2 ?_⟩
  decide +kernel

end SorobanKit.Nft
