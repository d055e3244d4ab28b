import SorobanKit.NftEnumeration

set_option autoImplicit false

/-!
# The transfer of one token

`transfer` writes the new owner to the instance storage, where no view looks, and leaves the
enumeration as it is; a batch of one token goes through the enumeration. They agree only on a
token that an owner sends to itself from the end of its list.
-/
namespace SorobanKit.Nft
open HostBalances HostInteger HostInvocation HostRuns

/-- The persistent maps and the configuration, with what else there is in instance storage. -/
structure Storage extends State where
  instanceOwner : Finmap (fun _ : ℕ => Address) := ∅
  instanceApproval : Finmap (fun _ : ℕ => Address) := ∅
  burned : Option ℕ := none

def Storage.empty : Storage := {}

/-- A balance of zero is not stored. -/
def setBalance (owner : Address) (amount : ℕ) (s : Storage) : Storage :=
  { s with balance := if amount = 0 then s.balance.erase owner else s.balance.insert owner amount }

def moveToken (source target : Address) (tokenId : ℕ) (s : Storage) : Storage :=
  let s := { s with instanceOwner := s.instanceOwner.insert tokenId target }
  let s := { s with instanceApproval := s.instanceApproval.erase tokenId }
  if source ≠ target then
    let s := setBalance source (saturatingSubU32 (ownerBalance s.toState source) 1) s
    setBalance target (saturatingAddU32 (ownerBalance s.toState target) 1) s
  else s

def transfer (ctx : Context) (source target : Address) (tokenId : ℕ) (s : Storage) :
    Result NftError Storage := do
  requireInitialized s.toState
  requireTransferable s.toState
  requireAuth ctx source
  let owner ← okOr (s.owner.lookup tokenId) .tokenNotFound
  rejectIf (owner ≠ source) .notAuthorized
  return moveToken source target tokenId s

/-- An entry point that uses nothing else of the instance storage. -/
def Storage.lift (f : State → Result NftError State) (s : Storage) : Result NftError Storage := do
  let t ← f s.toState
  return { s with toState := t }

inductive StorageCall where
  | call (call : Call)
  | transfer (source target : Address) (tokenId : ℕ)

structure StorageInvocation extends Context where
  call : StorageCall

def execStorage (i : StorageInvocation) (s : Storage) : Result NftError Storage :=
  match i.call with
  | .call call => s.lift (exec ⟨i.toContext, call⟩)
  | .transfer source target tokenId => transfer i.toContext source target tokenId s

def runStorage (s : Storage) (is : List StorageInvocation) : Storage := HostRuns.run execStorage s is

def ownerOf (tokenId : ℕ) (s : Storage) : Result NftError Address :=
  okOr (s.owner.lookup tokenId) .tokenNotFound

def getApproved (tokenId : ℕ) (s : Storage) : Option Address := s.approval.lookup tokenId

def balanceOf (owner : Address) (s : Storage) : ℕ := ownerBalance s.toState owner

def tokenOfOwnerByIndex (owner : Address) (index : ℕ) (s : Storage) : Result NftError ℕ := do
  rejectIf (ownerBalance s.toState owner ≤ index) .invalidTokenId
  okOr (s.ownerTokens.lookup (owner, index)) .invalidTokenId

def totalSupply (s : Storage) : ℕ :=
  saturatingSubU32 (s.totalSupply.getD 0) (s.burned.getD 0)

structure SameViews (s t : Storage) : Prop where
  owner_of : ∀ tokenId, ownerOf tokenId s = ownerOf tokenId t
  get_approved : ∀ tokenId, getApproved tokenId s = getApproved tokenId t
  balance_of : ∀ owner, balanceOf owner s = balanceOf owner t
  token_of_owner : ∀ owner index,
    tokenOfOwnerByIndex owner index s = tokenOfOwnerByIndex owner index t
  total_supply : totalSupply s = totalSupply t

theorem SameViews.symm {s t : Storage} (h : SameViews s t) : SameViews t s where
  owner_of tokenId := (h.owner_of tokenId).symm
  get_approved tokenId := (h.get_approved tokenId).symm
  balance_of owner := (h.balance_of owner).symm
  token_of_owner owner index := (h.token_of_owner owner index).symm
  total_supply := h.total_supply.symm

theorem SameViews.trans {s t u : Storage} (hst : SameViews s t) (htu : SameViews t u) :
    SameViews s u where
  owner_of tokenId := (hst.owner_of tokenId).trans (htu.owner_of tokenId)
  get_approved tokenId := (hst.get_approved tokenId).trans (htu.get_approved tokenId)
  balance_of owner := (hst.balance_of owner).trans (htu.balance_of owner)
  token_of_owner owner index := (hst.token_of_owner owner index).trans (htu.token_of_owner owner index)
  total_supply := hst.total_supply.trans htu.total_supply

/-- The views say that the token, and only this one, went from `s` to the target. -/
structure Moved (target : Address) (tokenId : ℕ) (s t : Storage) : Prop where
  owner : ownerOf tokenId t = .ok target
  approval : getApproved tokenId t = none
  others : ∀ other, other ≠ tokenId → ownerOf other t = ownerOf other s

/-- The token stands at the end of the owner's list, and where its index says. -/
def AtEnd (owner : Address) (tokenId : ℕ) (s : Storage) : Prop :=
  0 < balanceOf owner s ∧
    s.ownerTokens.lookup (owner, balanceOf owner s - 1) = some tokenId ∧
    ((s.ownedIndex.lookup tokenId).getD 0 < balanceOf owner s →
      s.ownerTokens.lookup (owner, (s.ownedIndex.lookup tokenId).getD 0) = some tokenId)

instance (owner : Address) (tokenId : ℕ) (s : Storage) : Decidable (AtEnd owner tokenId s) :=
  inferInstanceAs (Decidable (_ ∧ _ ∧ (_ → _)))

def Sized (s : State) : Prop := ∀ owner, ownerBalance s owner ≤ u32Max

section Sizes
variable {s t : State}

theorem ownerBalance_of_insert {owner : Address} {n : ℕ}
    (h : t.balance = s.balance.insert owner n) (other : Address) :
    ownerBalance t other = if other = owner then n else ownerBalance s other := by
  unfold ownerBalance
  rw [h, lookup_insert_ite]
  split <;> rfl

theorem Sized.of_balance (hs : Sized s) (h : t.balance = s.balance) : Sized t := by
  unfold Sized ownerBalance
  rw [h]
  exact hs

theorem Sized.insert (hs : Sized s) {owner : Address} {n : ℕ} (hn : n ≤ u32Max)
    (h : t.balance = s.balance.insert owner n) : Sized t := by
  intro other
  rw [ownerBalance_of_insert h]
  split
  · exact hn
  · exact hs other

theorem Sized.enumerableAdd (hs : Sized s) (owner : Address) (tokenId : ℕ) :
    Sized (enumerableAdd owner tokenId s) := by
  apply hs.insert (min_le_right (ownerBalance s owner + 1) u32Max)
  rfl

theorem swapLast_balance (owner : Address) (index lastIndex : ℕ) (s : State) :
    (swapLast owner index lastIndex s).balance = s.balance := by
  unfold swapLast
  split <;> rfl

theorem Sized.enumerableRemove (hs : Sized s) (owner : Address) (tokenId : ℕ) :
    Sized (enumerableRemove owner tokenId s) := by
  have howner := hs owner
  unfold Nft.enumerableRemove
  dsimp only
  split
  · exact hs
  · have hlast : saturatingSubU32 (ownerBalance s owner) 1 ≤ u32Max := by
      unfold saturatingSubU32
      omega
    apply hs.insert hlast
    dsimp only
    rw [swapLast_balance]

theorem Sized.reassign (hs : Sized s) (source target : Address) (tokenId : ℕ) :
    Sized (reassign source target tokenId s) :=
  ((hs.enumerableRemove source tokenId).of_balance rfl).enumerableAdd target tokenId

theorem Sized.reassignAll (hs : Sized s) (source target : Address) (tokenIds : List ℕ) :
    Sized (tokenIds.foldl (fun s tokenId => Nft.reassign source target tokenId s) s) := by
  induction tokenIds generalizing s with
  | nil => exact hs
  | cons tokenId tokenIds ih => exact ih (hs.reassign source target tokenId)

theorem Sized.minted {target : Address} {tokenUris : List String} {m m' : Minting}
    (hm : Sized m.state) (h : tokenUris.foldlM (mintNext target) m = .ok m') : Sized m'.state := by
  induction tokenUris generalizing m with
  | nil =>
    rw [List.foldlM_nil, pure_eq_ok] at h
    rw [← h]
    exact hm
  | cons uri tokenUris ih =>
    rw [List.foldlM_cons, bind_eq_ok] at h
    obtain ⟨m₁, hnext, h⟩ := h
    simp only [mintNext, bind_eq_ok, pure_eq_ok] at hnext
    obtain ⟨tokenId, _, _, _, _, _, rfl⟩ := hnext
    apply ih _ h
    exact Sized.enumerableAdd (hm.of_balance rfl) target tokenId

theorem exec_sized {i : Invocation} (hs : Sized s) (h : exec i s = .ok t) : Sized t := by
  unfold exec at h
  cases hcall : i.call with
  | initializeNft =>
    simp only [hcall, initializeNft, bind_eq_ok, pure_eq_ok] at h
    obtain ⟨_, _, _, _, _, _, _, _, rfl⟩ := h
    exact hs.of_balance rfl
  | mintBatch target tokenUris =>
    simp only [hcall, mintBatch, bind_eq_ok, pure_eq_ok] at h
    obtain ⟨⟨minted, s'⟩, ⟨_, _, _, _, _, _, h⟩, rfl⟩ := h
    split at h
    · rw [pure_eq_ok] at h
      cases h
      exact hs
    · simp only [mintAll, bind_eq_ok, pure_eq_ok, Prod.mk.injEq] at h
      obtain ⟨_, _, m, hloop, rfl, rfl⟩ := h
      exact (Sized.minted hs hloop).of_balance rfl
  | transferBatch source target tokenIds =>
    simp only [hcall, transferBatch, bind_eq_ok, pure_eq_ok] at h
    obtain ⟨_, _, _, _, _, _, _, _, rfl⟩ := h
    exact hs.reassignAll source target tokenIds
  | transferFrom spender source target tokenId =>
    simp only [hcall, transferFrom, bind_eq_ok, pure_eq_ok] at h
    obtain ⟨_, _, _, _, _, _, _, _, _, _, rfl⟩ := h
    exact hs.reassign source target tokenId
  | burn source tokenId =>
    simp only [hcall, burn, bind_eq_ok, pure_eq_ok] at h
    obtain ⟨_, _, _, _, _, _, rfl⟩ := h
    exact (hs.enumerableRemove source tokenId).of_balance rfl
  | approve tokenId spender =>
    simp only [hcall, approve, bind_eq_ok, pure_eq_ok] at h
    obtain ⟨_, _, _, _, _, _, rfl⟩ := h
    exact hs.of_balance rfl

theorem balanceOf_setBalance (owner other : Address) (amount : ℕ) (s : Storage) :
    balanceOf other (setBalance owner amount s) = if other = owner then amount else balanceOf other s := by
  unfold balanceOf ownerBalance setBalance
  dsimp only
  by_cases hzero : amount = 0
  · rw [if_pos hzero, lookup_erase_ite]
    split
    · rw [hzero, Option.getD_none]
    · rfl
  · rw [if_neg hzero, lookup_insert_ite]
    split
    · rw [Option.getD_some]
    · rfl

theorem Sized.setBalance {s : Storage} (hs : Sized s.toState) (owner : Address) {amount : ℕ}
    (hamount : amount ≤ u32Max) : Sized (setBalance owner amount s).toState := by
  intro other
  have hbalance := balanceOf_setBalance owner other amount s
  unfold balanceOf at hbalance
  rw [hbalance]
  split
  · exact hamount
  · exact hs other

theorem Sized.moveToken {s : Storage} (hs : Sized s.toState) (source target : Address)
    (tokenId : ℕ) : Sized (moveToken source target tokenId s).toState := by
  have hsource := hs source
  unfold Nft.moveToken
  dsimp only
  split
  · apply Sized.setBalance _ target (min_le_right _ _)
    apply Sized.setBalance _ source
    · unfold saturatingSubU32
      exact (Nat.sub_le _ _).trans hsource
    · exact hs
  · exact hs

theorem transfer_ok {ctx : Context} {source target : Address} {tokenId : ℕ} {s t : Storage}
    (h : transfer ctx source target tokenId s = .ok t) :
    requireInitialized s.toState = .ok () ∧ requireTransferable s.toState = .ok () ∧
      source ∈ ctx.auths ∧ s.owner.lookup tokenId = some source ∧
      t = moveToken source target tokenId s := by
  simp only [transfer, bind_eq_ok, okOr_eq_ok, rejectIf_eq_ok, not_not, requireAuth_eq_ok,
    pure_eq_ok] at h
  obtain ⟨_, hinit, _, hsoul, _, hauth, owner, howner, _, rfl, rfl⟩ := h
  exact ⟨hinit, hsoul, hauth, howner, rfl⟩

theorem execStorage_sized {i : StorageInvocation} {s t : Storage} (hs : Sized s.toState)
    (h : execStorage i s = .ok t) : Sized t.toState := by
  unfold execStorage at h
  cases hcall : i.call with
  | call call =>
    simp only [hcall, Storage.lift, bind_eq_ok, pure_eq_ok] at h
    obtain ⟨u, hexec, rfl⟩ := h
    exact exec_sized hs hexec
  | transfer source target tokenId =>
    rw [hcall] at h
    obtain ⟨_, _, _, _, rfl⟩ := transfer_ok h
    exact hs.moveToken source target tokenId

theorem runStorage_sized (is : List StorageInvocation) :
    Sized (runStorage Storage.empty is).toState := by
  apply run_invariant (I := fun s : Storage => Sized s.toState)
  · intro s i t hs hok
    exact execStorage_sized hs hok
  · intro owner
    exact Nat.zero_le _

end Sizes

section Transfers
variable {s : Storage} {source target : Address} {tokenId : ℕ}

theorem enumerableRemove_balance {s : State} {source : Address} (tokenId : ℕ)
    (hpos : 0 < ownerBalance s source) (owner : Address) :
    ownerBalance (enumerableRemove source tokenId s) owner =
      if owner = source then ownerBalance s source - 1 else ownerBalance s owner := by
  apply ownerBalance_of_insert
  have hsome : ownerBalance s source ≠ 0 := by omega
  unfold enumerableRemove
  dsimp only
  rw [if_neg hsome]
  dsimp only
  rw [swapLast_balance]
  rfl

theorem swapLast_ownerTokens {s : State} {index last : ℕ} (owner : Address) (place : ℕ) :
    (swapLast source index last s).ownerTokens.lookup (owner, place) =
      if (owner, place) = (source, index) ∧ index ≠ last then
        some ((s.ownerTokens.lookup (source, last)).getD 0)
      else s.ownerTokens.lookup (owner, place) := by
  unfold swapLast
  by_cases hlast : index = last
  · simp [hlast]
  · rw [if_neg hlast, lookup_insert_ite]
    simp only [ne_eq, hlast, not_false_eq_true, and_true]

theorem enumerableRemove_ownerTokens {s : State} (hpos : 0 < ownerBalance s source)
    (owner : Address) (place : ℕ) (hplace : (owner, place) ≠ (source, ownerBalance s source - 1)) :
    (enumerableRemove source tokenId s).ownerTokens.lookup (owner, place) =
      if (owner, place) = (source, (s.ownedIndex.lookup tokenId).getD 0) then
        some ((s.ownerTokens.lookup (source, ownerBalance s source - 1)).getD 0)
      else s.ownerTokens.lookup (owner, place) := by
  have hsome : ownerBalance s source ≠ 0 := by omega
  unfold enumerableRemove saturatingSubU32
  dsimp only
  rw [if_neg hsome]
  dsimp only
  rw [Finmap.lookup_erase_ne hplace, swapLast_ownerTokens]
  by_cases hindex : (owner, place) = (source, (s.ownedIndex.lookup tokenId).getD 0)
  · have hlast : (s.ownedIndex.lookup tokenId).getD 0 ≠ ownerBalance s source - 1 := by
      intro heq
      rw [hindex, heq] at hplace
      exact hplace rfl
    rw [if_pos hindex, if_pos ⟨hindex, hlast⟩]
  · rw [if_neg hindex, if_neg fun h => hindex h.1]

theorem reassign_self_ownerTokens {s : State} (hpos : 0 < ownerBalance s source) (owner : Address)
    (place : ℕ) :
    (reassign source source tokenId s).ownerTokens.lookup (owner, place) =
      if (owner, place) = (source, ownerBalance s source - 1) then some tokenId
      else if (owner, place) = (source, (s.ownedIndex.lookup tokenId).getD 0) then
        some ((s.ownerTokens.lookup (source, ownerBalance s source - 1)).getD 0)
      else s.ownerTokens.lookup (owner, place) := by
  have hbalance := enumerableRemove_balance tokenId hpos source
  rw [if_pos rfl] at hbalance
  change ((enumerableRemove source tokenId s).ownerTokens.insert
    (source, ownerBalance (enumerableRemove source tokenId s) source) tokenId).lookup _ = _
  rw [hbalance, lookup_insert_ite]
  by_cases hplace : (owner, place) = (source, ownerBalance s source - 1)
  · rw [if_pos hplace, if_pos hplace]
  · rw [if_neg hplace, if_neg hplace]
    exact enumerableRemove_ownerTokens hpos owner place hplace

theorem reassign_self_balance {s : State} (hs : Sized s) (hpos : 0 < ownerBalance s source)
    (owner : Address) : ownerBalance (reassign source source tokenId s) owner = ownerBalance s owner := by
  have hsource := hs source
  have hremoved := enumerableRemove_balance tokenId hpos
  have hadded : ownerBalance (reassign source source tokenId s) owner =
      if owner = source then
        saturatingAddU32 (ownerBalance (enumerableRemove source tokenId s) source) 1
      else ownerBalance (enumerableRemove source tokenId s) owner := ownerBalance_of_insert rfl owner
  rw [hadded, hremoved, hremoved, if_pos rfl]
  unfold saturatingAddU32
  split
  · next howner =>
    rw [howner]
    omega
  · rfl

theorem reassign_self_unlisted {s : State} (hzero : ownerBalance s source = 0) :
    ownerBalance (reassign source source tokenId s) source = 1 := by
  have hremoved : enumerableRemove source tokenId s = s := by
    unfold enumerableRemove
    rw [if_pos hzero]
  have hadded : ownerBalance (reassign source source tokenId s) source =
      if source = source then
        saturatingAddU32 (ownerBalance (enumerableRemove source tokenId s) source) 1
      else ownerBalance (enumerableRemove source tokenId s) source := ownerBalance_of_insert rfl source
  rw [hadded, if_pos rfl, hremoved, hzero]
  rfl

theorem okOr_inj {α : Type} {x y : Option α} {code : NftError} :
    okOr x code = okOr y code ↔ x = y := by
  cases x <;> cases y <;> simp [okOr]

theorem tokenOfOwnerByIndex_eq_iff {t : Storage} {owner : Address} {index : ℕ}
    (h : balanceOf owner s = balanceOf owner t) :
    tokenOfOwnerByIndex owner index s = tokenOfOwnerByIndex owner index t ↔
      (index < balanceOf owner s →
        s.ownerTokens.lookup (owner, index) = t.ownerTokens.lookup (owner, index)) := by
  unfold tokenOfOwnerByIndex
  unfold balanceOf at h ⊢
  rw [← h]
  by_cases hindex : index < ownerBalance s.toState owner
  · have hin : rejectIf (ownerBalance s.toState owner ≤ index) NftError.invalidTokenId = .ok () :=
      rejectIf_neg (by omega)
    rw [hin, ok_bind, ok_bind, okOr_inj]
    simp only [hindex, true_implies]
  · have hout : rejectIf (ownerBalance s.toState owner ≤ index) NftError.invalidTokenId =
        .error (.error .invalidTokenId) := rejectIf_pos (by omega)
    rw [hout]
    simp only [hindex, false_implies, iff_true]
    rfl

theorem atEnd_of_sameViews
    (hviews : SameViews s { s with toState := reassign source source tokenId s.toState }) :
    getApproved tokenId s = none ∧ AtEnd source tokenId s := by
  have hplaces := @reassign_self_ownerTokens source tokenId s.toState
  have hpos : 0 < balanceOf source s := by
    by_contra hnone
    have hzero : ownerBalance s.toState source = 0 := Nat.eq_zero_of_not_pos hnone
    have hsame : ownerBalance s.toState source =
        ownerBalance (reassign source source tokenId s.toState) source := hviews.balance_of source
    rw [reassign_self_unlisted hzero, hzero] at hsame
    cases hsame
  have htokens : ∀ index, index < balanceOf source s →
      s.ownerTokens.lookup (source, index) =
        (reassign source source tokenId s.toState).ownerTokens.lookup (source, index) := by
    intro index
    exact (tokenOfOwnerByIndex_eq_iff (hviews.balance_of source)).mp
      (hviews.token_of_owner source index)
  have hlast : s.ownerTokens.lookup (source, balanceOf source s - 1) = some tokenId := by
    rw [htokens _ (by omega), hplaces hpos]
    exact if_pos rfl
  refine ⟨?_, hpos, hlast, fun hindex => ?_⟩
  · rw [hviews.get_approved tokenId]
    unfold getApproved
    dsimp only
    rw [reassign_eq, Finmap.lookup_erase]
  · rw [htokens _ hindex, hplaces hpos]
    split
    · rfl
    · unfold balanceOf at hlast
      rw [if_pos rfl, hlast, Option.getD_some]

theorem sameViews_of_atEnd (hs : Sized s.toState) (howner : s.owner.lookup tokenId = some source)
    (happroval : getApproved tokenId s = none) (hend : AtEnd source tokenId s) :
    SameViews s { s with toState := reassign source source tokenId s.toState } := by
  have hplaces := @reassign_self_ownerTokens source tokenId s.toState
  have hbalances := @reassign_self_balance source tokenId s.toState hs
  obtain ⟨hpos, hlast, hindex⟩ := hend
  constructor
  · intro other
    unfold ownerOf
    dsimp only
    rw [reassign_eq]
    dsimp only
    rw [lookup_insert_ite]
    split
    · next hother => rw [hother, howner]
    · rfl
  · intro other
    unfold getApproved at happroval ⊢
    dsimp only
    rw [reassign_eq]
    dsimp only
    rw [lookup_erase_ite]
    split
    · next hother =>
      rw [hother]
      exact happroval
    · rfl
  · intro owner
    exact (hbalances hpos owner).symm
  · intro owner index
    have hsame : balanceOf owner s =
        balanceOf owner { s with toState := reassign source source tokenId s.toState } :=
      (hbalances hpos owner).symm
    rw [tokenOfOwnerByIndex_eq_iff hsame]
    intro hlt
    change _ = (reassign source source tokenId s.toState).ownerTokens.lookup (owner, index)
    rw [hplaces hpos]
    split
    · next hend =>
      rw [hend]
      exact hlast
    · split
      · next hplace =>
        have howner' := (Prod.mk.inj hplace).1
        have hindex' := (Prod.mk.inj hplace).2
        change _ = some ((s.ownerTokens.lookup (source, balanceOf source s - 1)).getD 0)
        rw [howner', hindex'] at hlt
        rw [hplace, hlast, Option.getD_some]
        exact hindex hlt
      · rfl
  · unfold totalSupply
    dsimp only
    rw [reassign_eq]

/-- What a transfer to oneself leaves as it is, a batch of one token leaves as it is if nobody is
    approved for the token and it is at the end of the list. -/
theorem self_batch_iff (hs : Sized s.toState) (howner : s.owner.lookup tokenId = some source) :
    SameViews s { s with toState := reassign source source tokenId s.toState } ↔
      getApproved tokenId s = none ∧ AtEnd source tokenId s := by
  constructor
  · exact atEnd_of_sameViews
  · intro h
    exact sameViews_of_atEnd hs howner h.1 h.2

theorem moveToken_self (source : Address) (tokenId : ℕ) (s : Storage) :
    SameViews (moveToken source source tokenId s) s := by
  unfold moveToken
  rw [if_neg (by simp)]
  constructor
  · exact fun _ => rfl
  · exact fun _ => rfl
  · exact fun _ => rfl
  · exact fun _ _ => rfl
  · rfl

theorem ownerOf_moveToken (source target : Address) (tokenId other : ℕ) (s : Storage) :
    ownerOf other (moveToken source target tokenId s) = ownerOf other s := by
  unfold moveToken
  dsimp only
  split <;> rfl

theorem transferBatch_single {ctx : Context} (hinit : requireInitialized s.toState = .ok ())
    (hsoul : requireTransferable s.toState = .ok ()) (hauth : source ∈ ctx.auths)
    (howner : s.owner.lookup tokenId = some source) :
    s.lift (transferBatch ctx source target [tokenId]) =
      .ok { s with toState := reassign source target tokenId s.toState } := by
  have hsigned : requireAuth ctx source = (.ok () : Result NftError Unit) :=
    requireAuth_eq_ok.mpr hauth
  have howned : requireOwner source tokenId s.toState = .ok () := by
    unfold requireOwner
    rw [howner]
    exact rejectIf_neg (by simp)
  unfold Storage.lift transferBatch
  rw [hinit, hsoul, hsigned, ok_bind, ok_bind, ok_bind, List.forM_eq_forM, List.forM_cons, howned,
    ok_bind]
  rfl

theorem moved_of_batch (source target : Address) (tokenId : ℕ) (s : Storage) :
    Moved target tokenId s { s with toState := reassign source target tokenId s.toState } := by
  have heq := reassign_eq source target tokenId s.toState
  constructor
  · unfold ownerOf
    dsimp only
    rw [heq, Finmap.lookup_insert]
    rfl
  · unfold getApproved
    dsimp only
    rw [heq, Finmap.lookup_erase]
  · intro other hother
    unfold ownerOf
    dsimp only
    rw [heq, Finmap.lookup_insert_of_ne _ hother]

theorem SameViews.moved {t u : Storage} (h : SameViews t u) (hu : Moved target tokenId s u) :
    Moved target tokenId s t := by
  constructor
  · rw [h.owner_of]
    exact hu.owner
  · rw [h.get_approved]
    exact hu.approval
  · intro other hother
    rw [h.owner_of]
    exact hu.others other hother

end Transfers

/-- In every state that the collection reaches, a transfer that returns leaves what a batch of the
    same token would leave, with the token at the target, if and only if an owner sends a token to
    itself that nobody is approved for and that stands at the end of its list. -/
theorem transfer_as_batch_iff (is : List StorageInvocation) (ctx : Context) (source target : Address)
    (tokenId : ℕ) (t : Storage)
    (h : transfer ctx source target tokenId (runStorage Storage.empty is) = .ok t) :
    ∃ u, (runStorage Storage.empty is).lift (transferBatch ctx source target [tokenId]) = .ok u ∧
      (SameViews t u ∧ Moved target tokenId (runStorage Storage.empty is) t ↔
        source = target ∧ getApproved tokenId (runStorage Storage.empty is) = none ∧
          AtEnd source tokenId (runStorage Storage.empty is)) := by
  have hsized := runStorage_sized is
  generalize runStorage Storage.empty is = s at h hsized ⊢
  obtain ⟨hinit, hsoul, hauth, howner, rfl⟩ := transfer_ok h
  refine ⟨_, transferBatch_single hinit hsoul hauth howner, ?_⟩
  have hbatch := moved_of_batch source target tokenId s
  constructor
  · intro hsame
    obtain ⟨hviews, hmoved⟩ := hsame
    have hself : source = target := by
      have hstored := hmoved.owner
      rw [ownerOf_moveToken, ownerOf, howner] at hstored
      cases hstored
      rfl
    subst hself
    exact ⟨rfl, (self_batch_iff hsized howner).mp ((moveToken_self source tokenId s).symm.trans hviews)⟩
  · intro hcond
    obtain ⟨rfl, hcond⟩ := hcond
    have hviews := (moveToken_self source tokenId s).trans ((self_batch_iff hsized howner).mpr hcond)
    exact ⟨hviews, hviews.moved hbatch⟩

def demoStorageCall (call : StorageCall) : StorageInvocation where
  sequence := 1
  auths := [demoAdmin, demoAlice]
  call := call

/-- Alice has tokens 1, 2 and 3. -/
def demoMinted : List StorageInvocation :=
  [demoStorageCall (.call demoInitialize.call), demoStorageCall (.call demoMint.call)]

/-- Alice sends token 3 to herself. -/
theorem transfer_as_batch_iff_demo :
    ∃ t u, transfer demoMint.toContext demoAlice demoAlice 3 (runStorage Storage.empty demoMinted) = .ok t ∧
      (runStorage Storage.empty demoMinted).lift
        (transferBatch demoMint.toContext demoAlice demoAlice [3]) = .ok u ∧
      SameViews t u := by
  rcases transfer_as_batch_iff demoMinted demoMint.toContext demoAlice demoAlice 3 _ rfl with
    ⟨u, hbatch, hiff⟩
  have hend : AtEnd demoAlice 3 (runStorage Storage.empty demoMinted) := by decide +kernel
  have happroval : getApproved 3 (runStorage Storage.empty demoMinted) = none := by decide +kernel
  exact ⟨_, u, rfl, hbatch, (hiff.mpr ⟨rfl, happroval, hend⟩).1⟩

/-- After the transfer of token 1 to Bob, Alice owns it and Bob's balance has it. -/
theorem transfer_keeps_owner :
    ∃ t u, transfer demoMint.toContext demoAlice demoBob 1 (runStorage Storage.empty demoMinted) = .ok t ∧
      (runStorage Storage.empty demoMinted).lift
        (transferBatch demoMint.toContext demoAlice demoBob [1]) = .ok u ∧
      ownerOf 1 t = .ok demoAlice ∧ ownerOf 1 u = .ok demoBob ∧
      balanceOf demoBob t = 1 ∧ tokenOfOwnerByIndex demoBob 0 t = .error (.error .invalidTokenId) ∧
      ¬ SameViews t u := by
  refine ⟨_, _, rfl, rfl, rfl, rfl, rfl, rfl, fun hviews => ?_⟩
  have howner : Except.ok demoAlice = Except.ok demoBob := hviews.owner_of 1
  cases howner

end SorobanKit.Nft
