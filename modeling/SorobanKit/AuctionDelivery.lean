import SorobanKit.AuctionNft

set_option autoImplicit false

/-!
# Delivery against payment

Next to a collection that moves what its owner signs for, the auction holds the item while it is
open, and the item leaves it only in a call that also settles the money.
-/
namespace SorobanKit.Auction
open HostBalances HostInteger HostInvocation HostRuns HostTransfers

/-- A transfer needs the owner and its signature, and moves that one item. -/
structure Collection.Faithful {ν : Type} (N : Collection ν) : Prop where
  held : ∀ ctx source target id n m, N.transfer ctx source target id n = some m →
    N.owner n id = some source ∧ source ∈ ctx.auths
  moved : ∀ ctx source target id n m, N.transfer ctx source target id n = some m →
    ∀ other, N.owner m other = if other = id then some target else N.owner n other

section Moves
variable {ν : Type} {N : Collection ν} {house : Address} {ctx : Context} {n m : ν}

/-- The item of an auction is the token `id` of the collection. -/
structure Holds (N : Collection ν) (id : ℕ) (s : State) : Prop where
  nftContract : s.nftContract = some N.address
  nftTokenId : s.nftTokenId = some id

theorem Holds.release_eq {id : ℕ} {s : State} (h : Holds N id s) (target : Address) :
    release house s target = [⟨N.address, house, target, id⟩] := by
  unfold release
  rw [h.nftContract, h.nftTokenId]

theorem Holds.fixed {id : ℕ} {s t : State} (h : Holds N id s) (ht : Fixed s t) : Holds N id t :=
  ⟨ht.nftContract.trans h.nftContract, ht.nftTokenId.trans h.nftTokenId⟩

theorem moveItem_own {source target : Address} {id : ℕ} (hN : N.Faithful)
    (h : moveItem N house ctx n ⟨N.address, source, target, id⟩ = some m) :
    N.owner n id = some source ∧ (source ∈ ctx.auths ∨ source = house) ∧
      ∀ other, N.owner m other = if other = id then some target else N.owner n other := by
  unfold moveItem at h
  rw [if_pos rfl] at h
  obtain ⟨howner, hsigned⟩ := hN.held _ _ _ _ _ _ h
  refine ⟨howner, ?_, hN.moved _ _ _ _ _ _ h⟩
  dsimp only at hsigned
  split at hsigned
  · next hhouse => exact .inr hhouse
  · exact .inl hsigned

theorem moveItems_one {x : NftTransfer} (h : moveItems N house ctx n [x] = some m) :
    moveItem N house ctx n x = some m := by
  simpa [moveItems] using h

theorem moveItems_repeated {target : Address} {id : ℕ} (hN : N.Faithful) (htarget : target ≠ house)
    {auctionIds : List ℕ} (h : moveItems N house ctx n
      (auctionIds.flatMap fun _ => [⟨N.address, house, target, id⟩]) = some m) :
    (auctionIds = [] ∧ m = n) ∨
      moveItem N house ctx n ⟨N.address, house, target, id⟩ = some m := by
  cases auctionIds with
  | nil => exact .inl ⟨rfl, (Option.some.inj h).symm⟩
  | cons first rest =>
    refine .inr ?_
    simp only [moveItems, List.flatMap_cons, List.singleton_append, List.foldlM_cons,
      Option.bind_eq_bind, Option.bind_eq_some_iff] at h
    obtain ⟨k, hfirst, hrest⟩ := h
    cases rest with
    | nil =>
      rw [List.flatMap_nil, List.foldlM_nil] at hrest
      obtain rfl : k = m := Option.some.inj hrest
      exact hfirst
    | cons second rest =>
      simp only [List.flatMap_cons, List.singleton_append, List.foldlM_cons, Option.bind_eq_bind,
        Option.bind_eq_some_iff] at hrest
      obtain ⟨_, hsecond, _⟩ := hrest
      have hmoved := (moveItem_own hN hfirst).2.2 id
      have hheld := (moveItem_own hN hsecond).1
      rw [if_pos rfl, hheld] at hmoved
      exact absurd (Option.some.inj hmoved).symm htarget

end Moves

/-- How the item left the auction for `target`, with the money that moved in the same call. -/
inductive Delivered {house : Address} (i : Invocation house) (s t : State) (target : Address) : Prop
    where
  | boughtNow (amount : ℤ) (call : BuysNow i s target amount)
      (bought : BoughtNow house i.toEnv target amount s t)
  | ended (call : i.call = .endAuction) (heir : (winnerOf s).or s.seller = some target)
      (ended : Ended house i.toEnv s t)
  | bought (maxPrice : ℤ) (call : i.call = .buy target maxPrice)
      (bought : Bought house i.toEnv target maxPrice s t)
  | withdrawn (auctionIds : List ℕ) (call : i.call = .cancelAuctionsBatch target auctionIds)
      (withdrawn : Withdrawn house i.toEnv target auctionIds s t)

/-- Neither settled nor cancelled. -/
def Running (s : State) : Prop := s.settled.getD false = false ∧ s.cancelled.getD false = false

section Custody
variable {ν κ η : Type} {N : Collection ν} {house : Address} {id : ℕ} {s t : State} {n m : ν}
  {direct : κ → ν → Except η ν} {i : Invocation house}

structure Custody (N : Collection ν) (house : Address) (id : ℕ) (x : State × ν) : Prop where
  item : Holds N id x.1
  seller : ∃ seller, x.1.seller = some seller ∧ seller ≠ house
  held : Running x.1 → N.owner x.2 id = some house

/-- One transfer of the item out of the auction. -/
theorem Custody.delivered (hN : N.Faithful) (hs : Custody N house id (s, n)) {ctx : Context}
    {target : Address} (hfixed : Fixed s t) (hclosed : ¬ Running t)
    (h : moveItem N house ctx n ⟨N.address, house, target, id⟩ = some m) :
    Custody N house id (t, m) ∧ N.owner n id = some house ∧ N.owner m id = some target ∧
      ∀ other, other ≠ id → N.owner m other = N.owner n other := by
  obtain ⟨howner, _, hmoved⟩ := moveItem_own hN h
  refine ⟨⟨hs.item.fixed hfixed, ?_, fun hopen => absurd hopen hclosed⟩, howner, ?_, ?_⟩
  · obtain ⟨seller, hseller, hne⟩ := hs.seller
    exact ⟨seller, hfixed.seller.trans hseller, hne⟩
  · rw [hmoved, if_pos rfl]
  · intro other hother
    rw [hmoved, if_neg hother]

/-- A call on the auction leaves the item where it is, or delivers it. -/
def Moved (N : Collection ν) (id : ℕ) (house : Address) (i : Invocation house) (x y : State × ν) :
    Prop :=
  (∀ other, other ≠ id → N.owner y.2 other = N.owner x.2 other) ∧
    (N.owner y.2 id = N.owner x.2 id ∨ (N.owner x.2 id = some house ∧
      ∃ target, N.owner y.2 id = some target ∧ Delivered i x.1 y.1 target))

theorem Custody.auction (hN : N.Faithful) (hs : Custody N house id (s, n))
    (houtcome : Outcome i s t) (h : moveItems N house i.toContext n (nftCalls i s) = some m) :
    Custody N house id (t, m) ∧ Moved N id house i (s, n) (t, m) := by
  have hstays : Fixed s t → t.settled = s.settled → t.cancelled = s.cancelled → m = n →
      Custody N house id (t, m) ∧ Moved N id house i (s, n) (t, m) := by
    rintro hfixed hsettled hcancelled rfl
    obtain ⟨seller, hseller, hne⟩ := hs.seller
    refine ⟨⟨hs.item.fixed hfixed, ⟨seller, hfixed.seller.trans hseller, hne⟩, fun hopen => ?_⟩,
      fun _ _ => rfl, .inl rfl⟩
    refine hs.held ?_
    unfold Running at hopen ⊢
    rwa [hsettled, hcancelled] at hopen
  cases houtcome with
  | passed passes calls =>
    rw [calls] at h
    exact hstays passes.toFixed passes.settled passes.cancelled (Option.some.inj h).symm
  | boughtNow bidder amount call bought =>
    rw [call.nftCalls_eq, hs.item.release_eq] at h
    have hclosed : ¬ Running t := by
      intro hopen
      rw [Running, bought.settled] at hopen
      exact absurd hopen.1 (by decide)
    obtain ⟨hcustody, howner, htarget, hothers⟩ :=
      hs.delivered hN bought.toFixed hclosed (moveItems_one h)
    exact ⟨hcustody, hothers, .inr ⟨howner, bidder, htarget, .boughtNow amount call bought⟩⟩
  | ended call ended =>
    have hclosed : ¬ Running t := by
      intro hopen
      rw [Running, ended.settled] at hopen
      exact absurd hopen.1 (by decide)
    obtain ⟨seller, hseller, _⟩ := hs.seller
    obtain ⟨target, hheir, hcalls⟩ := nftCalls_endAuction hseller call
    rw [hcalls, hs.item.release_eq] at h
    obtain ⟨hcustody, howner, htarget, hothers⟩ :=
      hs.delivered hN ended.toFixed hclosed (moveItems_one h)
    exact ⟨hcustody, hothers, .inr ⟨howner, target, htarget, .ended call hheir ended⟩⟩
  | bought buyer maxPrice call bought =>
    simp only [nftCalls, call] at h
    rw [hs.item.release_eq] at h
    have hclosed : ¬ Running t := by
      intro hopen
      rw [Running, bought.settled] at hopen
      exact absurd hopen.1 (by decide)
    obtain ⟨hcustody, howner, htarget, hothers⟩ :=
      hs.delivered hN bought.toFixed hclosed (moveItems_one h)
    exact ⟨hcustody, hothers, .inr ⟨howner, buyer, htarget, .bought maxPrice call bought⟩⟩
  | withdrawn owner auctionIds call withdrawn =>
    simp only [nftCalls, call, hs.item.release_eq] at h
    obtain ⟨seller, hseller, hne⟩ := hs.seller
    have howner : owner ≠ house := by
      have hsame := withdrawn.signed.2
      rw [hseller] at hsame
      rwa [← Option.some.inj hsame]
    rcases moveItems_repeated hN howner h with ⟨rfl, hsame⟩ | hmove
    · rcases withdrawn.cancelled with ⟨_, hcancelled⟩ | ⟨hne, _⟩
      · exact hstays withdrawn.toFixed withdrawn.settled hcancelled hsame
      · exact absurd rfl hne
    · rcases withdrawn.cancelled with ⟨hnil, _⟩ | ⟨_, hcancelled, _⟩
      · rw [hnil] at h
        rcases withdrawn.cancelled with ⟨_, hcancelled⟩ | ⟨hne, _⟩
        · exact hstays withdrawn.toFixed withdrawn.settled hcancelled (Option.some.inj h).symm
        · exact absurd hnil hne
      · have hclosed : ¬ Running t := by
          intro hopen
          rw [Running, hcancelled] at hopen
          exact absurd hopen.2 (by decide)
        obtain ⟨hcustody, hheld, htarget, hothers⟩ :=
          hs.delivered hN withdrawn.toFixed hclosed hmove
        exact ⟨hcustody, hothers,
          .inr ⟨hheld, owner, htarget, .withdrawn auctionIds call withdrawn⟩⟩

/-- The collection and the token that a starting call puts up. -/
def putUp : Call → Option (Address × ℕ)
  | .start _ _ _ _ _ _ _ _ _ _ _ (some contract) (some id) => some (contract, id)
  | .startDutch _ _ _ _ _ _ (some contract) (some id) => some (contract, id)
  | _ => none

/-- What a starting call leaves. -/
theorem start_item (hitem : putUp i.call = some (N.address, id)) (h : exec i State.empty = .ok t) :
    Holds N id t ∧ (t.settled = some false ∧ t.cancelled = some false) ∧
      ∃ seller, t.seller = some seller ∧ seller ∈ i.auths ∧ nftCalls i State.empty = [⟨N.address, seller, house, id⟩] := by
  unfold putUp at hitem
  split at hitem
  · next hcall =>
    obtain ⟨rfl, rfl⟩ := Prod.mk.inj (Option.some.inj hitem)
    simp only [exec, hcall, start, bind_eq_ok, requireAuth_eq_ok] at h
    obtain ⟨_, _, _, _, _, _, _, hparams, _, _, _, hauth, hescrow⟩ := h
    obtain ⟨_, rfl⟩ := escrowNft_ok ⟨rfl, rfl⟩ hparams hescrow
    exact ⟨⟨rfl, rfl⟩, ⟨rfl, rfl⟩, _, rfl, hauth, by simp only [nftCalls, hcall, escrow]⟩
  · next hcall =>
    obtain ⟨rfl, rfl⟩ := Prod.mk.inj (Option.some.inj hitem)
    simp only [exec, hcall, startDutch, bind_eq_ok, requireAuth_eq_ok] at h
    obtain ⟨_, _, _, _, _, _, _, _, _, hparams, _, hauth, hescrow⟩ := h
    obtain ⟨_, rfl⟩ := escrowNft_ok ⟨rfl, rfl⟩ hparams hescrow
    exact ⟨⟨rfl, rfl⟩, ⟨rfl, rfl⟩, _, rfl, hauth, by simp only [nftCalls, hcall, escrow]⟩
  · cases hitem

/-- What a returning call on the auction did next to the collection. -/
theorem custodyExec_auction {x y : State × ν}
    (h : custodyExec N house direct (.auction i) x = .ok y) :
    exec (answered N i x.2) x.1 = .ok y.1 ∧
      moveItems N house i.toContext x.2 (nftCalls i x.1) = some y.2 := by
  simp only [custodyExec] at h
  split at h
  · next hexec hmove =>
    cases h
    exact ⟨hexec, hmove⟩
  · cases h

theorem custodyExec_collection {x y : State × ν} {j : κ}
    (h : custodyExec N house direct (.collection j) x = .ok y) :
    y.1 = x.1 ∧ direct j x.2 = .ok y.2 := by
  simp only [custodyExec] at h
  split at h
  · next hdirect =>
    cases h
    exact ⟨rfl, hdirect⟩
  · cases h

theorem start_custody {x : State × ν} {n₀ : ν} (hN : N.Faithful)
    (hitem : putUp i.call = some (N.address, id))
    (h : custodyExec N house direct (.auction i) (State.empty, n₀) = .ok x) :
    Custody N house id x := by
  obtain ⟨hexec, hmove⟩ := custodyExec_auction h
  obtain ⟨hholds, _, seller, hseller, hauth, hcalls⟩ :=
    start_item (i := answered N i n₀) (N := N) hitem hexec
  have hsame : nftCalls i State.empty = [⟨N.address, seller, house, id⟩] := hcalls
  dsimp only at hmove
  rw [hsame] at hmove
  refine ⟨hholds, ⟨seller, hseller, ?_⟩, fun _ => ?_⟩
  · rintro rfl
    exact i.outside hauth
  · rw [(moveItem_own hN (moveItems_one hmove)).2.2, if_pos rfl]

/-- A call on the auction keeps the custody, and so does one on the collection that takes nothing
    from the auction. -/
theorem Custody.step (hN : N.Faithful) {x y : State × ν} {j : CustodyCall house κ}
    (hs : Custody N house id x)
    (hdirect : ∀ k, j = .collection k → ∀ n m, direct k n = .ok m →
      N.owner n id = some house → N.owner m id = some house)
    (h : custodyExec N house direct j x = .ok y) :
    Custody N house id y ∧ ∀ i, j = .auction i → Moved N id house (answered N i x.2) x y := by
  obtain ⟨s, n⟩ := x
  cases j with
  | auction i =>
    obtain ⟨hexec, hmove⟩ := custodyExec_auction h
    obtain ⟨seller, hseller, _⟩ := hs.seller
    have hstarted : s.seller ≠ none := by
      rw [hseller]
      exact Option.some_ne_none seller
    obtain ⟨hcustody, hmoved⟩ := hs.auction hN (exec_outcome hstarted hexec) hmove
    refine ⟨hcustody, fun i' hi' => ?_⟩
    cases hi'
    exact hmoved
  | collection k =>
    obtain ⟨hsame, hk⟩ := custodyExec_collection h
    obtain ⟨t, m⟩ := y
    dsimp only at hsame hk
    subst hsame
    refine ⟨⟨hs.item, hs.seller, fun hopen => hdirect k rfl n m hk (hs.held hopen)⟩, fun i hi => ?_⟩
    cases hi

end Custody

/-- An auction that was started with a token of a faithful collection holds it while it runs, in every
    interleaving of calls on the auction and calls on the collection that take nothing from the
    auction. A call on the auction moves no other token, and moves this one only out of the auction
    and as `Delivered` says: to who bought it at once and paid the seller in that call, to the winner
    when the highest bid goes to the seller and to whom a royalty is due, to the buyer of a Dutch
    auction against its price, or back to the seller when nothing is sold. -/
theorem delivery_versus_payment {ν κ η : Type} (N : Collection ν) (hN : N.Faithful)
    (direct : κ → ν → Except η ν) (house : Address) (id : ℕ) (i₀ : Invocation house) (n₀ : ν)
    (x : State × ν) (hitem : putUp i₀.call = some (N.address, id))
    (hstart : custodyExec N house direct (.auction i₀) (State.empty, n₀) = .ok x)
    (js : List (CustodyCall house κ))
    (hdirect : ∀ k, .collection k ∈ js → ∀ n m, direct k n = .ok m →
      N.owner n id = some house → N.owner m id = some house) :
    ∀ e ∈ history (custodyExec N house direct) x js,
      (Running e.before.1 → N.owner e.before.2 id = some house) ∧
        ∀ i, e.invocation = .auction i → Moved N id house (answered N i e.before.2) e.before e.after := by
  intro e he
  have hs := start_custody hN hitem hstart
  have hall : Along (custodyExec N house direct) (fun _ j => ∀ k, j = .collection k →
      ∀ n m, direct k n = .ok m → N.owner n id = some house → N.owner m id = some house) x js := by
    have htrue := (along_true (custodyExec N house direct) x js).and_forall
      (Q := fun j => ∀ k, j = .collection k → ∀ n m, direct k n = .ok m →
        N.owner n id = some house → N.owner m id = some house)
      (fun j hj k hk => hdirect k (hk ▸ hj))
    exact htrue.mono fun _ _ h => h.2
  obtain ⟨hbefore, hallowed, hexec⟩ := history_mem
    (fun _ _ _ hs hk h => (hs.step hN hk h).1) hs hall he
  exact ⟨hbefore.held, (hbefore.step hN hallowed hexec).2⟩

/-- A collection by a map of its owners. -/
def demoCollection : Collection (ℕ → Option Address) where
  address := ⟨35⟩
  transfer ctx source target id n :=
    if n id = some source ∧ source ∈ ctx.auths then
      some fun other => if other = id then some target else n other
    else none
  owner n id := n id

theorem demoCollection_faithful : demoCollection.Faithful where
  held ctx source target id n m h := by
    simp only [demoCollection] at h ⊢
    split at h
    · next hheld => exact hheld
    · cases h
  moved ctx source target id n m h other := by
    simp only [demoCollection] at h ⊢
    split at h
    · cases h
      rfl
    · cases h

/-- The seller sends tokens of its own. -/
def demoSends (x : Address × ℕ) (n : ℕ → Option Address) : Except Unit (ℕ → Option Address) :=
  match demoCollection.transfer ⟨5, [demoSeller]⟩ demoSeller x.1 x.2 n with
  | some m => .ok m
  | none => .error ()

theorem demoSends_keeps (x : Address × ℕ) (n m : ℕ → Option Address) (h : demoSends x n = .ok m)
    (hheld : demoCollection.owner n 7 = some demoHouse) :
    demoCollection.owner m 7 = some demoHouse := by
  unfold demoSends at h
  split at h
  · next hsent =>
    cases h
    have howner := (demoCollection_faithful.held _ _ _ _ _ _ hsent).1
    rw [demoCollection_faithful.moved _ _ _ _ _ _ hsent]
    split
    · next heq =>
      rw [← heq, hheld] at howner
      exact absurd howner (by decide)
    · exact hheld
  · cases h

def demoItem : Invocation demoHouse :=
  demoCall 1 (.start demoSeller demoToken 50 10 100 none 0 100 0 0 none (some ⟨35⟩) (some 7))

def demoOwned : State × (ℕ → Option Address) :=
  HostRuns.run (custodyExec demoCollection demoHouse demoSends)
    (State.empty, fun id => if id = 7 then some demoSeller else none) [.auction demoItem]

/-- The seller cannot take the token back, and Alice gets it when her bid is paid out. -/
def demoSale : List (CustodyCall demoHouse (Address × ℕ)) :=
  [.auction (demoCall 2 (.bid demoAlice 100)), .collection (demoSeller, 7),
    .auction (demoCall 101 .endAuction)]

theorem delivery_versus_payment_demo :
    (HostRuns.run (custodyExec demoCollection demoHouse demoSends) demoOwned demoSale).2 7 =
        some demoAlice ∧
      (history (custodyExec demoCollection demoHouse demoSends) demoOwned demoSale).length = 2 ∧
      ∀ e ∈ history (custodyExec demoCollection demoHouse demoSends) demoOwned demoSale,
        Running e.before.1 → e.before.2 7 = some demoHouse := by
  refine ⟨by decide +kernel, by decide +kernel, ?_⟩
  intro e he
  exact (delivery_versus_payment demoCollection demoCollection_faithful demoSends demoHouse 7 demoItem
    (fun id => if id = 7 then some demoSeller else none) demoOwned rfl rfl demoSale
    (fun k _ n m h hheld => demoSends_keeps k n m h hheld) e he).1

end SorobanKit.Auction
