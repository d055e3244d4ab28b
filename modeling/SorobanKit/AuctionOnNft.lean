import SorobanKit.AuctionDelivery
import SorobanKit.NftProvenance
import SorobanKit.NftTransfer

set_option autoImplicit false

/-!
# The auction on the repository's collection

The auction moves its item by `transfer`, which the collection of this repository writes to the
instance storage while it looks for owners in the persistent one. So the seller of an escrowed token
goes on owning it, the auction has nothing to send, and no call that would end the auction returns.
-/
namespace SorobanKit.Auction
open HostBalances HostInteger HostInvocation HostRuns HostTransfers

/-- The collection of this repository, with the owners that it checks. -/
def kitCollection (address : Address) : Collection Nft.Storage where
  address := address
  transfer ctx source target id s := (Nft.transfer ctx source target id s).toOption
  owner s id := s.owner.lookup id

/-- The call would make `house` the owner of a token. -/
def Gives (house : Address) : Nft.StorageCall → Prop
  | .call (.mintBatch target _) => target = house
  | .call (.transferBatch _ target _) => target = house
  | .call (.transferFrom _ _ target _) => target = house
  | _ => False

section Kit
variable {address house : Address} {n m : Nft.Storage}

/-- The house owns no token. -/
def OwnsNothing (house : Address) (n : Nft.Storage) : Prop :=
  ∀ id, n.owner.lookup id ≠ some house

theorem kit_transfer_owner {ctx : Context} {source target : Address} {id : ℕ}
    (h : (kitCollection address).transfer ctx source target id n = some m) :
    n.owner.lookup id = some source ∧ m.owner = n.owner := by
  simp only [kitCollection, Except.toOption] at h
  split at h
  · next t ht =>
    cases h
    obtain ⟨_, _, _, howner, rfl⟩ := Nft.transfer_ok ht
    refine ⟨howner, ?_⟩
    unfold Nft.moveToken
    dsimp only
    split <;> rfl
  · cases h

theorem kit_moveItem_owner {ctx : Context} {x : NftTransfer}
    (h : moveItem (kitCollection address) house ctx n x = some m) :
    m.owner = n.owner ∧ (x.contract = address → n.owner.lookup x.tokenId = some x.source) := by
  unfold moveItem at h
  split at h
  · obtain ⟨howner, hsame⟩ := kit_transfer_owner h
    exact ⟨hsame, fun _ => howner⟩
  · next hother =>
    cases h
    exact ⟨rfl, fun heq => absurd heq hother⟩

theorem kit_moveItems_owner {ctx : Context} {xs : List NftTransfer}
    (h : moveItems (kitCollection address) house ctx n xs = some m) :
    m.owner = n.owner ∧ ∀ x ∈ xs, x.contract = address → n.owner.lookup x.tokenId = some x.source := by
  induction xs generalizing n with
  | nil =>
    obtain rfl : n = m := Option.some.inj h
    exact ⟨rfl, by simp⟩
  | cons x rest ih =>
    simp only [moveItems, List.foldlM_cons, Option.bind_eq_bind, Option.bind_eq_some_iff] at h
    obtain ⟨k, hfirst, hrest⟩ := h
    obtain ⟨hk, hx⟩ := kit_moveItem_owner hfirst
    obtain ⟨hm, hall⟩ := ih hrest
    refine ⟨hm.trans hk, List.forall_mem_cons.mpr ⟨hx, fun y hy heq => ?_⟩⟩
    rw [← hk]
    exact hall y hy heq

/-- Nobody else makes the auction an owner. -/
theorem OwnsNothing.direct {j : Nft.StorageInvocation} (hn : OwnsNothing house n)
    (hgives : ¬ Gives house j.call) (h : Nft.execStorage j n = .ok m) : OwnsNothing house m := by
  unfold Nft.execStorage at h
  cases hcall : j.call with
  | transfer source target id =>
    rw [hcall] at h
    obtain ⟨_, _, _, _, rfl⟩ := Nft.transfer_ok h
    intro k hk
    refine hn k ?_
    rw [← hk]
    unfold Nft.moveToken
    dsimp only
    split <;> rfl
  | call call =>
    simp only [hcall, Nft.Storage.lift, bind_eq_ok, pure_eq_ok] at h
    obtain ⟨t, hexec, rfl⟩ := h
    rw [hcall] at hgives
    intro k hk
    dsimp only at hk
    have hne : n.owner.lookup k ≠ some house := hn k
    cases (Nft.exec_ownerMove hexec).1 with
    | initialized before owner approval =>
      rw [owner] at hk
      exact hne hk
    | approved tokenId spender owner call held signed result =>
      rw [result] at hk
      exact hne hk
    | minted target admin tokenUris which office signed later owner approval =>
      dsimp only at which
      rw [which] at hgives
      rcases owner k with hsame | ⟨_, _, _, htarget⟩
      · rw [hsame] at hk
        exact hne hk
      · rw [hk] at htarget
        exact hgives (Option.some.inj htarget).symm
    | sent source target tokenIds signer which signed held allowed owner approval next =>
      rw [owner k] at hk
      split at hk
      · have htarget := Option.some.inj hk
        dsimp only at which
        rcases which with which | ⟨id, _, which⟩
        · rw [which] at hgives
          exact hgives htarget
        · rw [which] at hgives
          exact hgives htarget
      · exact hne hk
    | burned source tokenId signed held owner approval next =>
      rw [owner k] at hk
      split at hk
      · cases hk
      · exact hne hk

/-- The auction runs, and its collection does not know it. -/
structure Unheld (address house : Address) (id : ℕ) (x : State × Nft.Storage) : Prop where
  item : Holds (kitCollection address) id x.1
  seller : ∃ seller, x.1.seller = some seller ∧ seller ≠ house
  open_ : x.1.settled = some false ∧ x.1.cancelled = some false
  stranger : OwnsNothing house x.2

theorem Holds.unreleased {id : ℕ} {s : State} {ctx : Context} {target : Address}
    (hs : Holds (kitCollection address) id s) (hn : OwnsNothing house n) :
    moveItems (kitCollection address) house ctx n (release house s target) ≠ some m := by
  intro h
  have hheld := (kit_moveItems_owner h).2 ⟨address, house, target, id⟩
  rw [hs.release_eq] at hheld
  exact hn id (hheld List.mem_cons_self rfl)

/-- The calls that end an auction, or would. -/
def Ends (i : Invocation house) (s : State) : Prop :=
  i.call = .endAuction ∨ (∃ buyer maxPrice, i.call = .buy buyer maxPrice) ∨
    (∃ bidder amount, BuysNow i s bidder amount) ∨
    ∃ owner auctionIds, i.call = .cancelAuctionsBatch owner auctionIds ∧ auctionIds ≠ []

theorem Unheld.auction {id : ℕ} {i : Invocation house} {s t : State}
    (hs : Unheld address house id (s, n)) (houtcome : Outcome i s t)
    (h : moveItems (kitCollection address) house i.toContext n (nftCalls i s) = some m) :
    Unheld address house id (t, m) ∧ ¬ Ends i s := by
  have hpasses : Fixed s t → t.settled = s.settled → t.cancelled = s.cancelled →
      Unheld address house id (t, m) := by
    intro hfixed hsettled hcancelled
    obtain ⟨seller, hseller, hne⟩ := hs.seller
    refine ⟨hs.item.fixed hfixed, ⟨seller, hfixed.seller.trans hseller, hne⟩, ?_, ?_⟩
    · dsimp only
      rw [hsettled, hcancelled]
      exact hs.open_
    · intro k hk
      dsimp only at hk
      rw [(kit_moveItems_owner h).1] at hk
      exact hs.stranger k hk
  cases houtcome with
  | passed passes calls =>
    refine ⟨hpasses passes.toFixed passes.settled passes.cancelled, ?_⟩
    rintro (hcall | ⟨buyer, maxPrice, hcall⟩ | ⟨bidder, amount, hbuys⟩ | ⟨owner, auctionIds, hcall, hne⟩)
    · obtain ⟨seller, hseller, _⟩ := hs.seller
      obtain ⟨target, _, hcalls⟩ := nftCalls_endAuction hseller hcall
      rw [hcalls, hs.item.release_eq] at calls
      cases calls
    · simp only [nftCalls, hcall, hs.item.release_eq] at calls
      cases calls
    · rw [hbuys.nftCalls_eq, hs.item.release_eq] at calls
      cases calls
    · simp only [nftCalls, hcall, hs.item.release_eq] at calls
      cases auctionIds with
      | nil => exact hne rfl
      | cons first rest => cases calls
  | boughtNow bidder amount call bought =>
    rw [call.nftCalls_eq] at h
    exact absurd h (hs.item.unreleased hs.stranger)
  | ended call ended =>
    obtain ⟨seller, hseller, _⟩ := hs.seller
    obtain ⟨target, _, hcalls⟩ := nftCalls_endAuction hseller call
    rw [hcalls] at h
    exact absurd h (hs.item.unreleased hs.stranger)
  | bought buyer maxPrice call bought =>
    simp only [nftCalls, call] at h
    exact absurd h (hs.item.unreleased hs.stranger)
  | withdrawn owner auctionIds call withdrawn =>
    cases auctionIds with
    | nil =>
      rcases withdrawn.cancelled with ⟨_, hcancelled⟩ | ⟨hne, _⟩
      · refine ⟨hpasses withdrawn.toFixed withdrawn.settled hcancelled, ?_⟩
        rintro (hcall | ⟨buyer, maxPrice, hcall⟩ | ⟨bidder, amount, ⟨hcall | hcall, _⟩⟩ |
          ⟨other, auctionIds, hcall, hne⟩)
        · rw [call] at hcall
          cases hcall
        · rw [call] at hcall
          cases hcall
        · rw [call] at hcall
          cases hcall
        · rw [call] at hcall
          cases hcall
        · rw [call] at hcall
          cases hcall
          exact hne rfl
      · exact absurd rfl hne
    | cons first rest =>
      exfalso
      simp only [nftCalls, call, List.flatMap_cons] at h
      have hheld := (kit_moveItems_owner h).2 ⟨address, house, owner, id⟩
      rw [hs.item.release_eq] at hheld
      exact hs.stranger id (hheld List.mem_cons_self rfl)

theorem Unheld.step {id : ℕ} {x y : State × Nft.Storage} {j : CustodyCall house Nft.StorageInvocation}
    (hs : Unheld address house id x) (hgives : ∀ k, j = .collection k → ¬ Gives house k.call)
    (h : custodyExec (kitCollection address) house Nft.execStorage j x = .ok y) :
    Unheld address house id y ∧ ∀ i, j = .auction i → ¬ Ends i x.1 := by
  obtain ⟨s, n⟩ := x
  cases j with
  | auction i =>
    obtain ⟨hexec, hmove⟩ := custodyExec_auction h
    obtain ⟨seller, hseller, _⟩ := hs.seller
    have hstarted : s.seller ≠ none := by
      rw [hseller]
      exact Option.some_ne_none seller
    obtain ⟨hnext, hends⟩ := hs.auction (exec_outcome hstarted hexec) hmove
    refine ⟨hnext, fun i' hi' => ?_⟩
    cases hi'
    exact hends
  | collection k =>
    obtain ⟨hsame, hk⟩ := custodyExec_collection h
    obtain ⟨t, m⟩ := y
    dsimp only at hsame hk
    subst hsame
    refine ⟨⟨hs.item, hs.seller, hs.open_, hs.stranger.direct (hgives k rfl) hk⟩, fun i hi => ?_⟩
    cases hi

end Kit

/-- A started auction of a token of this repository's collection never ends, in whatever order calls
    on the auction and on the collection follow each other, as long as nobody makes the auction the
    owner by a mint, a batch or a transfer by approval: `end` and `buy` never return, nor does a bid
    at the buy-it-now price or a batch of cancellations; none of the calls settles or cancels, and
    the auction never owns a token. -/
theorem kit_item_auction_never_ends (address house : Address) (id : ℕ) (i₀ : Invocation house)
    (n₀ : Nft.Storage) (x : State × Nft.Storage) (hitem : putUp i₀.call = some (address, id))
    (hstart : custodyExec (kitCollection address) house Nft.execStorage (.auction i₀)
      (State.empty, n₀) = .ok x)
    (hstranger : ∀ k, n₀.owner.lookup k ≠ some house) (js : List (CustodyCall house Nft.StorageInvocation))
    (hgives : ∀ j, .collection j ∈ js → ¬ Gives house j.call) :
    (∀ e ∈ history (custodyExec (kitCollection address) house Nft.execStorage) x js,
      ∀ i, e.invocation = .auction i → ¬ Ends i e.before.1) ∧
    (HostRuns.run (custodyExec (kitCollection address) house Nft.execStorage) x js).1.settled =
        some false ∧
      (HostRuns.run (custodyExec (kitCollection address) house Nft.execStorage) x js).1.cancelled =
        some false ∧
      ∀ k, (HostRuns.run (custodyExec (kitCollection address) house
        Nft.execStorage) x js).2.owner.lookup k ≠ some house := by
  have hs : Unheld address house id x := by
    obtain ⟨hexec, hmove⟩ := custodyExec_auction hstart
    obtain ⟨hholds, hopen, seller, hseller, hauth, _⟩ := start_item
      (i := answered (kitCollection address) i₀ n₀) (N := kitCollection address) hitem hexec
    refine ⟨hholds, ⟨seller, hseller, ?_⟩, hopen, fun k hk => ?_⟩
    · rintro rfl
      exact i₀.outside hauth
    · rw [(kit_moveItems_owner hmove).1] at hk
      exact hstranger k hk
  have hall : Along (custodyExec (kitCollection address) house Nft.execStorage)
      (fun _ j => ∀ k, j = .collection k → ¬ Gives house k.call) x js := by
    have htrue := (along_true (custodyExec (kitCollection address) house Nft.execStorage) x
      js).and_forall (Q := fun j => ∀ k, j = .collection k → ¬ Gives house k.call)
      (fun j hj k hk => hgives k (hk ▸ hj))
    exact htrue.mono fun _ _ h => h.2
  have hrun := run_invariant_along (I := Unheld address house id)
    (fun _ _ _ hs hk h => (hs.step hk h).1) hs hall
  refine ⟨?_, hrun.open_.1, hrun.open_.2, hrun.stranger⟩
  intro e he
  obtain ⟨hbefore, hallowed, hexec⟩ := history_mem (I := Unheld address house id)
    (fun _ _ _ hs hk h => (hs.step hk h).1) hs hall he
  exact (hbefore.step hallowed hexec).2

def demoKitCall (call : Nft.Call) : Nft.StorageInvocation where
  sequence := 1
  auths := [demoSeller]
  call := .call call

/-- The seller has token 1. -/
def demoMinted : Nft.Storage := Nft.runStorage Nft.Storage.empty
  [demoKitCall (.initializeNft demoSeller "Kit" "KIT" 5 none none false),
    demoKitCall (.mintBatch demoSeller ["a"])]

def demoPutUp : Invocation demoHouse :=
  demoCall 1 (.start demoSeller demoToken 50 10 100 none 0 100 0 0 none (some ⟨35⟩) (some 1))

def demoEscrowed : State × Nft.Storage :=
  HostRuns.run (custodyExec (kitCollection ⟨35⟩) demoHouse Nft.execStorage) (State.empty, demoMinted)
    [.auction demoPutUp]

/-- Alice bids, the auction does not end, and the seller burns the token that was put up. -/
def demoBurnt : List (CustodyCall demoHouse Nft.StorageInvocation) :=
  [.auction (demoCall 2 (.bid demoAlice 100)), .auction (demoCall 101 .endAuction),
    .collection (demoKitCall (.burn demoSeller 1)), .auction (demoCall 102 .endAuction)]

theorem demoBurnt_gives (j : Nft.StorageInvocation) (hj : .collection j ∈ demoBurnt) :
    ¬ Gives demoHouse j.call := by
  simp only [demoBurnt, List.mem_cons, CustodyCall.collection.injEq, reduceCtorEq, false_or,
    List.not_mem_nil, or_false] at hj
  rw [hj]
  exact id

theorem demoMinted_stranger (k : ℕ) : demoMinted.owner.lookup k ≠ some demoHouse := by
  have howner : demoMinted.owner = (∅ : Finmap fun _ : ℕ => Address).insert 1 demoSeller := rfl
  rw [howner, lookup_insert_ite]
  split
  · decide
  · simp

theorem kit_item_auction_never_ends_demo :
    (history (custodyExec (kitCollection ⟨35⟩) demoHouse Nft.execStorage) demoEscrowed
        demoBurnt).length = 2 ∧
      (HostRuns.run (custodyExec (kitCollection ⟨35⟩) demoHouse Nft.execStorage) demoEscrowed
        demoBurnt).1.settled = some false ∧
      (HostRuns.run (custodyExec (kitCollection ⟨35⟩) demoHouse Nft.execStorage) demoEscrowed
        demoBurnt).2.owner.lookup 1 = none :=
  ⟨by decide +kernel, (kit_item_auction_never_ends ⟨35⟩ demoHouse 1 demoPutUp demoMinted demoEscrowed
    rfl rfl demoMinted_stranger demoBurnt demoBurnt_gives).2.1, by decide +kernel⟩

end SorobanKit.Auction
