import SorobanKit.HostShelves
import SorobanKit.NftContract

set_option autoImplicit false

/-!
# The enumeration follows the owners

The three maps of the enumeration are shelves, one an owner. Every entry point takes a token
out and puts it in where its `Owner` entry says, except a batch transfer that names a token
twice: the second time the token is no longer on the shelf it is taken from.
-/
namespace SorobanKit.Nft
open HostBalances HostInteger HostInvocation HostRuns HostShelves

def State.shelves (s : State) : Shelves Address ℕ := ⟨s.balance, s.ownerTokens, s.ownedIndex⟩

/-- A signed batch that passes every check, takes the tokens away from their owner and names
    one of them twice. -/
def RepeatsId (s : State) (i : Invocation) : Prop :=
  ∃ source target tokenIds, i.call = .transferBatch source target tokenIds ∧ source ∈ i.auths ∧
    s.soulbound.getD false = false ∧ (∀ id ∈ tokenIds, s.owner.lookup id = some source) ∧
    source ≠ target ∧ ¬ tokenIds.Nodup

section Shelving
variable {s : State}

theorem enumerableAdd_shelves {owner : Address} (tokenId : ℕ) (h : ownerBalance s owner < u32Max) :
    (enumerableAdd owner tokenId s).shelves = s.shelves.push owner tokenId := by
  have hcount : saturatingAddU32 (ownerBalance s owner) 1 = ownerBalance s owner + 1 :=
    min_eq_left (by omega)
  unfold enumerableAdd
  dsimp only [State.shelves]
  rw [hcount]
  rfl

theorem swapLast_shelves (owner : Address) (index lastIndex : ℕ) (s : State)
    (h : lastIndex = ownerBalance s owner - 1) :
    (swapLast owner index lastIndex s).shelves = s.shelves.moveLast owner index := by
  subst h
  unfold swapLast Shelves.moveLast
  dsimp only
  change _ = if index = ownerBalance s owner - 1 then _ else _
  split <;> rfl

theorem enumerableRemove_shelves (owner : Address) (tokenId : ℕ) (s : State) :
    (enumerableRemove owner tokenId s).shelves = s.shelves.swapRemove owner tokenId := by
  unfold enumerableRemove Shelves.swapRemove
  dsimp only
  change _ = if ownerBalance s owner = 0 then _ else _
  split
  · rfl
  · have hmoved := swapLast_shelves owner ((s.ownedIndex.lookup tokenId).getD 0) _ s rfl
    change _ = Shelves.mk
      ((s.shelves.moveLast owner ((s.ownedIndex.lookup tokenId).getD 0)).count.insert owner
        (ownerBalance s owner - 1))
      ((s.shelves.moveLast owner ((s.ownedIndex.lookup tokenId).getD 0)).item.erase
        (owner, ownerBalance s owner - 1))
      ((s.shelves.moveLast owner ((s.ownedIndex.lookup tokenId).getD 0)).position.erase tokenId)
    rw [← hmoved]
    rfl

/-- The enumeration writes its three maps only. -/
theorem enumerableRemove_eq (owner : Address) (tokenId : ℕ) (s : State) :
    enumerableRemove owner tokenId s = { s with
      balance := (enumerableRemove owner tokenId s).balance
      ownerTokens := (enumerableRemove owner tokenId s).ownerTokens
      ownedIndex := (enumerableRemove owner tokenId s).ownedIndex } := by
  unfold enumerableRemove swapLast
  dsimp only
  split
  · rfl
  · split <;> rfl

/-- The maps list what `own` says, `n` tokens in all. -/
structure Listed (own : ℕ → Option Address) (n : ℕ) (s : State) : Prop where
  holds : s.shelves.Holds own
  sizes_eq : s.shelves.sizes = n
  small : n ≤ u32Max

variable {own : ℕ → Option Address} {n : ℕ}

theorem Listed.balance_le (hs : Listed own n s) (owner : Address) : ownerBalance s owner ≤ n := by
  have hle := s.shelves.size_le_sizes owner
  rw [hs.sizes_eq] at hle
  exact Int.ofNat_le.mp hle

theorem Listed.add (hs : Listed own n s) {tokenId : ℕ} (owner : Address)
    (hnew : own tokenId = none) (hsmall : n + 1 ≤ u32Max) :
    Listed (Function.update own tokenId (some owner)) (n + 1) (enumerableAdd owner tokenId s) := by
  have hbalance := hs.balance_le owner
  have hshelves := enumerableAdd_shelves tokenId (show ownerBalance s owner < u32Max by omega)
  refine ⟨?_, ?_, hsmall⟩
  · rw [hshelves]
    exact hs.holds.push owner hnew
  · rw [hshelves, Shelves.sizes_push, hs.sizes_eq]
    rfl

theorem Listed.remove (hs : Listed own n s) {tokenId : ℕ} {owner : Address}
    (howner : own tokenId = some owner) :
    0 < n ∧ Listed (Function.update own tokenId none) (n - 1) (enumerableRemove owner tokenId s) := by
  obtain ⟨i, _, hi, _⟩ := hs.holds.listed tokenId owner howner
  have hbalance : ownerBalance s owner ≤ n := hs.balance_le owner
  have hsize : s.shelves.size owner = ownerBalance s owner := rfl
  have hsizes := s.shelves.sizes_swapRemove tokenId (show s.shelves.size owner ≠ 0 by omega)
  have hsmall := hs.small
  refine ⟨by omega, ?_, ?_, by omega⟩
  · rw [enumerableRemove_shelves]
    exact hs.holds.swapRemove howner
  · rw [enumerableRemove_shelves, hsizes, hs.sizes_eq]
    omega

theorem owner_insert (s : State) (tokenId : ℕ) (owner : Address) :
    (fun id => (s.owner.insert tokenId owner).lookup id) =
      Function.update (fun id => s.owner.lookup id) tokenId (some owner) := by
  funext id
  rw [lookup_insert_ite, Function.update_apply]

theorem owner_erase (s : State) (tokenId : ℕ) :
    (fun id => (s.owner.erase tokenId).lookup id) =
      Function.update (fun id => s.owner.lookup id) tokenId none := by
  funext id
  rw [lookup_erase_ite, Function.update_apply]

end Shelving

structure Enumerated (s : State) : Prop where
  started : s.isInitialized = true
  listed : ∃ n, s.totalSupply = some n ∧ Listed (fun id => s.owner.lookup id) n s ∧
    ∀ max, s.maxSupply = some max → n ≤ max

section Steps
variable {s t : State}

theorem reassign_eq (source target : Address) (tokenId : ℕ) (s : State) :
    reassign source target tokenId s = { s with
      owner := s.owner.insert tokenId target
      approval := s.approval.erase tokenId
      balance := (reassign source target tokenId s).balance
      ownerTokens := (reassign source target tokenId s).ownerTokens
      ownedIndex := (reassign source target tokenId s).ownedIndex } := by
  unfold reassign
  rw [enumerableRemove_eq]
  rfl

theorem Enumerated.reassign (hs : Enumerated s) {source : Address} {tokenId : ℕ} (target : Address)
    (howner : s.owner.lookup tokenId = some source) :
    Enumerated (reassign source target tokenId s) := by
  obtain ⟨n, htotal, hlisted, hcap⟩ := hs.listed
  obtain ⟨hpos, hremoved⟩ := hlisted.remove howner
  have hsmall := hlisted.small
  have hadded := hremoved.add target (Function.update_self tokenId _ _) (by omega)
  rw [Function.update_idem, ← owner_insert, Nat.sub_add_cancel hpos] at hadded
  have heq := reassign_eq source target tokenId s
  refine ⟨?_, n, ?_, ?_, fun max hmax => hcap max ?_⟩
  · rw [heq]
    exact hs.started
  · rw [heq]
    exact htotal
  · rw [heq]
    exact ⟨hadded.holds, hadded.sizes_eq, hadded.small⟩
  · rw [heq] at hmax
    exact hmax

/-- A batch keeps the enumeration, when no token of it changes hands twice. -/
theorem Enumerated.reassignAll (hs : Enumerated s) {source target : Address} {tokenIds : List ℕ}
    (howners : ∀ id ∈ tokenIds, s.owner.lookup id = some source)
    (honce : source = target ∨ tokenIds.Nodup) :
    Enumerated (tokenIds.foldl (fun s tokenId => Nft.reassign source target tokenId s) s) := by
  induction tokenIds generalizing s with
  | nil => exact hs
  | cons tokenId rest ih =>
    rw [List.foldl_cons]
    obtain ⟨hfirst, hrest⟩ := List.forall_mem_cons.mp howners
    apply ih (hs.reassign target hfirst)
    · intro id hid
      rw [reassign_eq, lookup_insert_ite]
      split
      · next hsame =>
        rcases honce with rfl | hnodup
        · rfl
        · subst hsame
          exact absurd hid (List.nodup_cons.mp hnodup).1
      · exact hrest id hid
    · exact honce.imp_right fun hnodup => (List.nodup_cons.mp hnodup).2

theorem requireOwner_ok {source : Address} {tokenId : ℕ} {u : Unit}
    (h : requireOwner source tokenId s = .ok u) : s.owner.lookup tokenId = some source := by
  simp only [requireOwner, bind_eq_ok, okOr_eq_ok, rejectIf_eq_ok, not_not] at h
  obtain ⟨owner, howner, rfl⟩ := h
  exact howner

theorem Enumerated.burned (hs : Enumerated s) {source : Address} {tokenId : ℕ}
    (howner : s.owner.lookup tokenId = some source) :
    Enumerated { enumerableRemove source tokenId s with
      owner := (enumerableRemove source tokenId s).owner.erase tokenId
      uri := (enumerableRemove source tokenId s).uri.erase tokenId
      approval := (enumerableRemove source tokenId s).approval.erase tokenId
      totalSupply := some (saturatingSubU32 ((enumerableRemove source tokenId s).totalSupply.getD 1) 1) } := by
  obtain ⟨n, htotal, hlisted, hcap⟩ := hs.listed
  obtain ⟨hpos, hremoved⟩ := hlisted.remove howner
  rw [← owner_erase] at hremoved
  have heq := enumerableRemove_eq source tokenId s
  refine ⟨?_, n - 1, ?_, ?_, fun max hmax => ?_⟩
  · rw [heq]
    exact hs.started
  · rw [heq]
    dsimp only
    rw [htotal]
    rfl
  · rw [heq] at hremoved ⊢
    exact ⟨hremoved.holds, hremoved.sizes_eq, hremoved.small⟩
  · rw [heq] at hmax
    have hle := hcap max hmax
    omega

theorem skipTaken_ok {steps next tokenId : ℕ} (h : skipTaken s steps next = .ok tokenId) :
    s.owner.lookup tokenId = none := by
  induction steps generalizing next with
  | zero => cases h
  | succ steps ih =>
    unfold skipTaken at h
    split at h
    · simp only [bind_eq_ok] at h
      obtain ⟨later, _, h⟩ := h
      exact ih h
    · next hfree =>
      rw [pure_eq_ok] at h
      rw [← h]
      exact Finmap.lookup_eq_none.mpr hfree

/-- What the loop of `mint_batch` keeps. -/
structure Mints (s : State) (m : Minting) : Prop where
  listed : Listed (fun id => m.state.owner.lookup id) m.newTotal m.state
  started : m.state.isInitialized = s.isInitialized
  cap : m.state.maxSupply = s.maxSupply

theorem Mints.next {m m' : Minting} (hm : Mints s m) {target : Address} {uri : String}
    (h : mintNext target m uri = .ok m') : Mints s m' ∧ m'.newTotal = m.newTotal + 1 := by
  simp only [mintNext, bind_eq_ok, okOr_eq_ok, checkedAddU32_eq_some, pure_eq_ok] at h
  obtain ⟨tokenId, hskip, _, _, _, ⟨hsmall, rfl⟩, rfl⟩ := h
  have hadded := hm.listed.add target (skipTaken_ok hskip) hsmall
  rw [← owner_insert] at hadded
  exact ⟨⟨⟨hadded.holds, hadded.sizes_eq, hadded.small⟩, hm.started, hm.cap⟩, rfl⟩

theorem Mints.all {m m' : Minting} (hm : Mints s m) {target : Address} {tokenUris : List String}
    (h : tokenUris.foldlM (mintNext target) m = .ok m') :
    Mints s m' ∧ m'.newTotal = m.newTotal + tokenUris.length := by
  induction tokenUris generalizing m with
  | nil =>
    rw [List.foldlM_nil, pure_eq_ok] at h
    subst h
    exact ⟨hm, rfl⟩
  | cons uri rest ih =>
    rw [List.foldlM_cons, bind_eq_ok] at h
    obtain ⟨m₁, hnext, h⟩ := h
    obtain ⟨hm₁, hone⟩ := hm.next hnext
    obtain ⟨hm', hrest⟩ := ih hm₁ h
    refine ⟨hm', ?_⟩
    rw [hrest, hone, List.length_cons]
    omega

theorem Enumerated.minted (hs : Enumerated s) {target : Address} {tokenUris : List String}
    {minted : List ℕ} (h : mintAll target tokenUris s = .ok (minted, t)) : Enumerated t := by
  obtain ⟨n, htotal, hlisted, hcap⟩ := hs.listed
  simp only [mintAll, requireSupply, bind_eq_ok, rejectIf_eq_ok, pure_eq_ok, Prod.mk.injEq, htotal,
    Option.getD_some] at h
  obtain ⟨_, hroom, m, hloop, rfl, rfl⟩ := h
  have hstart : Mints s ⟨s, s.nextTokenId.getD 1, n, []⟩ := ⟨hlisted, rfl, rfl⟩
  obtain ⟨hm, hcount⟩ := hstart.all hloop
  have hsmall := hm.listed.small
  refine ⟨hm.started.trans hs.started, m.newTotal, rfl,
    ⟨hm.listed.holds, hm.listed.sizes_eq, hm.listed.small⟩, fun max hmax => ?_⟩
  have hmax' : s.maxSupply = some max := hm.cap.symm.trans hmax
  have hfits : saturatingAddU32 n tokenUris.length ≤ max := by
    by_contra hover
    exact hroom ⟨max, hmax', by omega⟩
  unfold saturatingAddU32 at hfits
  dsimp only at hcount
  omega

theorem exec_enumerated {i : Invocation} (hs : Enumerated s) (honce : ¬ RepeatsId s i)
    (h : exec i s = .ok t) : Enumerated t := by
  unfold exec at h
  cases hcall : i.call with
  | initializeNft =>
    simp only [hcall, initializeNft, bind_eq_ok, rejectIf_eq_ok] at h
    obtain ⟨_, hnew, _⟩ := h
    exact absurd hs.started hnew
  | mintBatch target tokenUris =>
    simp only [hcall, mintBatch, bind_eq_ok, pure_eq_ok] at h
    obtain ⟨⟨minted, s'⟩, ⟨_, _, _, _, _, _, h⟩, rfl⟩ := h
    split at h
    · rw [pure_eq_ok] at h
      cases h
      exact hs
    · exact hs.minted h
  | transferBatch source target tokenIds =>
    simp only [hcall, transferBatch, requireTransferable, bind_eq_ok, rejectIf_eq_ok,
      requireAuth_eq_ok, pure_eq_ok] at h
    obtain ⟨_, _, _, hsoul, _, hauth, _, howners, rfl⟩ := h
    have howned : ∀ id ∈ tokenIds, s.owner.lookup id = some source :=
      fun id hid => requireOwner_ok (forM_ok howners id hid)
    apply hs.reassignAll howned
    by_contra hrepeat
    rw [not_or] at hrepeat
    exact honce ⟨source, target, tokenIds, hcall, hauth, by simpa using hsoul, howned, hrepeat⟩
  | transferFrom spender source target tokenId =>
    simp only [hcall, transferFrom, bind_eq_ok, pure_eq_ok] at h
    obtain ⟨_, _, _, _, _, _, _, howner, _, _, rfl⟩ := h
    exact hs.reassign target (requireOwner_ok howner)
  | burn source tokenId =>
    simp only [hcall, burn, bind_eq_ok, pure_eq_ok] at h
    obtain ⟨_, _, _, _, _, howner, rfl⟩ := h
    exact hs.burned (requireOwner_ok howner)
  | approve tokenId spender =>
    simp only [hcall, approve, bind_eq_ok, pure_eq_ok] at h
    obtain ⟨_, _, _, _, _, _, rfl⟩ := h
    obtain ⟨n, htotal, hlisted, hcap⟩ := hs.listed
    exact ⟨hs.started, n, htotal, ⟨hlisted.holds, hlisted.sizes_eq, hlisted.small⟩, hcap⟩

end Steps

theorem initializeNft_enumerated {ctx : Context} {admin : Address} {name symbol : String}
    {maxSupply : ℕ} {royaltyBps : Option ℕ} {royaltyRecipient : Option Address} {soulbound : Bool}
    {s : State} (h : initializeNft ctx admin name symbol maxSupply royaltyBps royaltyRecipient
      soulbound State.empty = .ok s) : Enumerated s := by
  simp only [initializeNft, bind_eq_ok, pure_eq_ok] at h
  obtain ⟨_, _, _, _, _, _, _, _, rfl⟩ := h
  refine ⟨rfl, 0, rfl, ⟨⟨fun id owner howner => ?_, fun owner i hi => ?_⟩, rfl, Nat.zero_le _⟩,
    fun max _ => Nat.zero_le max⟩
  · simp [State.empty] at howner
  · exact absurd hi (Nat.not_lt_zero i)

/-- In every run whose batch transfers name no token twice, the enumeration of every owner has
    exactly the tokens of that owner, each once and at its index, and the balances add up to
    the total supply, which stays below the cap. -/
theorem enumeration_exact (admin : Address) (name symbol : String) (maxSupply : ℕ)
    (royaltyBps : Option ℕ) (royaltyRecipient : Option Address) (soulbound : Bool) (i₀ : Invocation)
    (s : State)
    (hcall : i₀.call =
      .initializeNft admin name symbol maxSupply royaltyBps royaltyRecipient soulbound)
    (hinit : exec i₀ State.empty = .ok s) (is : List Invocation)
    (honce : Along exec (fun s i => ¬ RepeatsId s i) s is) :
    (∀ owner,
      (∀ i, i < ownerBalance (run s is) owner →
        ∃ id, (run s is).ownerTokens.lookup (owner, i) = some id ∧
          (run s is).owner.lookup id = some owner ∧ (run s is).ownedIndex.lookup id = some i) ∧
      ∀ id, (run s is).owner.lookup id = some owner →
        ∃! i, i < ownerBalance (run s is) owner ∧
          (run s is).ownerTokens.lookup (owner, i) = some id) ∧
    ∃ supply, (run s is).totalSupply = some supply ∧
      sumBy (fun _ (n : ℕ) => (n : ℤ)) (run s is).balance = supply ∧
      ∀ max, (run s is).maxSupply = some max → supply ≤ max := by
  have hs : Enumerated s := by
    unfold exec at hinit
    rw [hcall] at hinit
    exact initializeNft_enumerated hinit
  have hrun : Enumerated (run s is) :=
    run_invariant_along (fun _ _ _ hs hi hok => exec_enumerated hs hi hok) hs honce
  obtain ⟨n, htotal, hlisted, hcap⟩ := hrun.listed
  exact ⟨fun owner => hlisted.holds.lists owner, n, htotal, hlisted.sizes_eq, hcap⟩

def demoAdmin : Address := ⟨50⟩
def demoAlice : Address := ⟨51⟩
def demoBob : Address := ⟨52⟩

def demoCall (call : Call) : Invocation where
  sequence := 1
  auths := [demoAdmin, demoAlice]
  call := call

def demoInitialize : Invocation := demoCall (.initializeNft demoAdmin "Kit" "KIT" 5 none none false)

def demoMint : Invocation := demoCall (.mintBatch demoAlice ["a", "b", "c"])

/-- Alice gives Bob the first of three tokens: the last one takes its place. -/
theorem enumeration_exact_demo :
    let t := run (run State.empty [demoInitialize])
      [demoMint, demoCall (.transferBatch demoAlice demoBob [1])]
    ∃ supply, t.totalSupply = some supply ∧
      sumBy (fun _ (n : ℕ) => (n : ℤ)) t.balance = supply ∧
      ∀ max, t.maxSupply = some max → supply ≤ max := by
  refine (enumeration_exact demoAdmin "Kit" "KIT" 5 none none false demoInitialize
    (run State.empty [demoInitialize]) rfl rfl
    [demoMint, demoCall (.transferBatch demoAlice demoBob [1])] ⟨?_, ?_, trivial⟩).2
  · rintro ⟨source, target, tokenIds, hcall, _⟩
    cases hcall
  · rintro ⟨source, target, tokenIds, hcall, _, _, _, _, hrepeat⟩
    cases hcall
    exact hrepeat (List.nodup_singleton 1)

/-- The batch takes token 1 from Alice twice: the second time another token leaves her list,
    and Bob's list has token 1 twice. -/
theorem repeated_id_counted_twice :
    let t := run State.empty
      [demoInitialize, demoMint, demoCall (.transferBatch demoAlice demoBob [1, 1])]
    ownerBalance t demoBob = 2 ∧ t.ownerTokens.lookup (demoBob, 0) = some 1 ∧
      t.ownerTokens.lookup (demoBob, 1) = some 1 ∧ t.owner.lookup 1 = some demoBob ∧
      ownerBalance t demoAlice = 1 ∧ t.owner.lookup 2 = some demoAlice ∧
      t.owner.lookup 3 = some demoAlice := by
  decide +kernel

end SorobanKit.Nft
