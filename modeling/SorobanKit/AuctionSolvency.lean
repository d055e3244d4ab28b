import SorobanKit.AuctionMoves

set_option autoImplicit false

/-!
# Solvency of an English auction

What the contract holds of its token is the refunds, the proceeds kept for the seller and
the highest bid, until a buy-it-now settles the auction and `place_bid`, which does not look
at `Settled`, takes one more bid: the bid that was paid out is then queued as a refund.
-/
namespace SorobanKit.Auction
open HostBalances HostInteger HostInvocation HostRuns HostTransfers

def held (house token : Address) (log : List (Transfer Purpose)) : ℤ :=
  received token house log - sent token house log

/-- The highest bid, while there is a bidder and it was not paid out. -/
def liveBid (s : State) : ℤ :=
  if s.settled = some true then 0 else outbid s (s.highestBid.getD 0)

def owed (s : State) : ℤ := total s.pending + total s.sellerPending + liveBid s

/-- A signed bid that the deadline and the minimum let pass, although the auction is settled. -/
def LateBid {house : Address} (s : State) (i : Invocation house) : Prop :=
  s.settled = some true ∧ ∃ bidder amount,
    (i.call = .bid bidder amount ∨ i.call = .bidWithCredit bidder amount) ∧ bidder ∈ i.auths ∧
    (∃ deadline, s.deadline = some deadline ∧ i.sequence ≤ deadline) ∧
    ∃ highestBid minIncrement startPrice, s.highestBid = some highestBid ∧
      s.minIncrement = some minIncrement ∧ s.startPrice = some startPrice ∧
      (if highestBid < startPrice then startPrice else highestBid + minIncrement) ≤ amount

section Held
variable {house token holder : Address}

theorem held_nil : held house token [] = 0 := rfl

theorem held_append (xs ys : List (Transfer Purpose)) :
    held house token (xs ++ ys) = held house token xs + held house token ys := by
  unfold held received sent
  rw [sumOf_append, sumOf_append]
  abel

theorem held_incoming (purpose : Purpose) (amount : ℤ) (h : holder ≠ house) :
    held house token [⟨purpose, token, holder, house, amount⟩] = amount := by
  simp [held, received, sent, h]

theorem held_outgoing (purpose : Purpose) (amount : ℤ) (h : holder ≠ house) :
    held house token [⟨purpose, token, house, holder, amount⟩] = -amount := by
  simp [held, received, sent, h]

theorem held_bidPay {other : Address} {transferred : ℤ} (h : holder ≠ house)
    (hnonneg : 0 ≤ transferred) (htoken : 0 < transferred → other = token) :
    held house token (bidPay house other holder transferred) = transferred := by
  unfold bidPay
  split
  · next hpos =>
    rw [htoken hpos]
    exact held_incoming .bid transferred h
  · next hpos =>
    have hzero : transferred = 0 := by omega
    rw [hzero]
    rfl

end Held

/-- The prices of the auction: a bid that stands has reached the start price. -/
structure Priced (s : State) (highestBid startPrice : ℤ) : Prop where
  highestBid_eq : s.highestBid = some highestBid
  startPrice_eq : s.startPrice = some startPrice
  increment_pos : ∀ minIncrement, s.minIncrement = some minIncrement → 0 < minIncrement
  startPrice_pos : 0 < startPrice
  nonneg : 0 ≤ highestBid
  reached : s.highestBidder.isSome → startPrice ≤ highestBid

structure Solvent (house token : Address) (s : State) : Prop where
  token_eq : s.token = some token
  seller_ne : ∃ seller, s.seller = some seller ∧ seller ≠ house
  english : s.dutchConfig = none
  without_nft : s.nftContract = none
  bidder_ne : ∀ bidder, s.highestBidder = some bidder → bidder ≠ house
  priced : ∃ highestBid startPrice, Priced s highestBid startPrice
  pending_nonneg : NonnegEntries s.pending
  sellerPending_nonneg : NonnegEntries s.sellerPending
  held_eq : held house token s.transfers = owed s

section Steps
variable {house token : Address} {i : Invocation house} {s t : State}

theorem Invocation.ne_house {a : Address} (h : a ∈ i.auths) : a ≠ house := by
  rintro rfl
  exact i.outside h

theorem Solvent.started (hs : Solvent house token s) : s.seller ≠ none := by
  obtain ⟨seller, hseller, _⟩ := hs.seller_ne
  rw [hseller]
  exact Option.some_ne_none seller

theorem Solvent.token_unique (hs : Solvent house token s) {other : Address}
    (h : s.token = some other) : other = token := by
  rw [hs.token_eq] at h
  exact (Option.some.inj h).symm

theorem Solvent.seller_ne_house (hs : Solvent house token s) {seller : Address}
    (h : s.seller = some seller) : seller ≠ house := by
  obtain ⟨stored, hstored, hne⟩ := hs.seller_ne
  rw [hstored] at h
  cases h
  exact hne

theorem Solvent.highestBid_nonneg (hs : Solvent house token s) {highestBid : ℤ}
    (h : s.highestBid = some highestBid) : 0 ≤ highestBid := by
  obtain ⟨stored, _, hpriced⟩ := hs.priced
  rw [hpriced.highestBid_eq] at h
  cases h
  exact hpriced.nonneg

theorem Solvent.priced_bid {bidder : Address} {amount transferred : ℤ} {pending : Balances Address}
    (hs : Solvent house token s) (hbids : Bids i.toEnv bidder amount transferred pending s)
    (hbid : t.highestBid = some amount) (hprice : t.startPrice = s.startPrice)
    (hincrement : t.minIncrement = s.minIncrement) :
    ∃ highestBid startPrice, Priced t highestBid startPrice := by
  obtain ⟨highestBid, startPrice, hpriced⟩ := hs.priced
  obtain ⟨stored, minIncrement, least, hstored, hinc, hleast, henough⟩ := hbids.enough
  rw [hpriced.highestBid_eq] at hstored
  cases hstored
  rw [hpriced.startPrice_eq] at hleast
  cases hleast
  have hpos := hpriced.increment_pos minIncrement hinc
  have hreached : startPrice ≤ amount := by
    split at henough <;> omega
  exact ⟨amount, startPrice, hbid, by rw [hprice, hpriced.startPrice_eq],
    by rw [hincrement]; exact hpriced.increment_pos, hpriced.startPrice_pos,
    le_of_lt hbids.positive, fun _ => hreached⟩

theorem Bids.late {bidder : Address} {amount transferred : ℤ} {pending : Balances Address}
    (hbids : Bids i.toEnv bidder amount transferred pending s) (hsettled : s.settled = some true)
    (hcall : i.call = .bid bidder amount ∨ i.call = .bidWithCredit bidder amount) : LateBid s i :=
  ⟨hsettled, bidder, amount, hcall, hbids.authorized, hbids.open_now, hbids.enough⟩

theorem liveBid_of_settled (h : s.settled = some true) : liveBid s = 0 := if_pos h

theorem liveBid_of_open {highestBid : ℤ} (h : s.settled ≠ some true)
    (hbid : s.highestBid = some highestBid) : liveBid s = outbid s highestBid := by
  rw [liveBid, if_neg h, hbid, Option.getD_some]

theorem outbid_of_some {bidder : Address} (highestBid : ℤ) (h : s.highestBidder = some bidder) :
    outbid s highestBid = highestBid := by
  simp [outbid, h]

theorem owed_of_settled (h : s.settled = some true) :
    owed s = total s.pending + total s.sellerPending := by
  rw [owed, liveBid_of_settled h, add_zero]

theorem owed_of_open {bidder : Address} {highestBid : ℤ} (h : s.settled ≠ some true)
    (hbidder : s.highestBidder = some bidder) (hbid : s.highestBid = some highestBid) :
    owed s = total s.pending + total s.sellerPending + highestBid := by
  rw [owed, liveBid_of_open h hbid, outbid_of_some highestBid hbidder]

theorem Solvent.pending_bid {bidder : Address} {amount transferred : ℤ}
    {pending : Balances Address} (hs : Solvent house token s) (hopen : s.settled ≠ some true)
    (hbids : Bids i.toEnv bidder amount transferred pending s) :
    0 ≤ transferred ∧ NonnegEntries pending ∧
      total pending + total s.sellerPending + amount = owed s + transferred := by
  obtain ⟨hpay, hnonneg, htotal⟩ :=
    hbids.refunds hs.pending_nonneg fun highestBid hbid => hs.highestBid_nonneg hbid
  obtain ⟨highestBid, startPrice, hpriced⟩ := hs.priced
  refine ⟨hpay, hnonneg, ?_⟩
  rw [htotal highestBid hpriced.highestBid_eq, owed, liveBid_of_open hopen hpriced.highestBid_eq]
  omega

/-- Settling pays the highest bid out, or finds that there was none. -/
theorem Solvent.settled (hs : Solvent house token s) (xs : List (Transfer Purpose))
    {sellerPending : Balances Address} (hnonneg : NonnegEntries sellerPending)
    (hheld : held house token xs = total sellerPending - total s.sellerPending - liveBid s) :
    Solvent house token { s with
      settled := some true, sellerPending := sellerPending, transfers := s.transfers ++ xs } := by
  obtain ⟨highestBid, startPrice, hpriced⟩ := hs.priced
  refine { hs with
    priced := ⟨highestBid, startPrice, { hpriced with }⟩
    sellerPending_nonneg := hnonneg
    held_eq := ?_ }
  rw [held_append, hs.held_eq, hheld]
  simp only [owed, liveBid_of_settled]
  omega

theorem Solvent.raised {bidder other : Address} {amount transferred : ℤ}
    {pending : Balances Address} (hs : Solvent house token s) (hopen : s.settled ≠ some true)
    (hbids : Bids i.toEnv bidder amount transferred pending s)
    (htoken : 0 < transferred → s.token = some other)
    (h : t = { s with
      pending := pending, highestBidder := some bidder, highestBid := some amount,
      deadline := t.deadline,
      transfers := s.transfers ++ bidPay house other bidder transferred }) :
    Solvent house token t := by
  have hbidder := Invocation.ne_house hbids.authorized
  obtain ⟨hpay, hnonneg, howed⟩ := hs.pending_bid hopen hbids
  have hsame : 0 < transferred → other = token := fun hpos => hs.token_unique (htoken hpos)
  rw [h]
  refine { hs with
    bidder_ne := fun _ hsome => Option.some.inj hsome ▸ hbidder
    priced := hs.priced_bid hbids rfl rfl rfl
    pending_nonneg := hnonneg
    held_eq := ?_ }
  rw [held_append, hs.held_eq, held_bidPay hbidder hpay hsame, ← howed]
  symm
  exact owed_of_open hopen rfl rfl

theorem Solvent.bought_now {bidder seller : Address} {amount transferred : ℤ}
    {pending : Balances Address} (hs : Solvent house token s) (hopen : s.settled ≠ some true)
    (hbids : Bids i.toEnv bidder amount transferred pending s) (hseller : s.seller = some seller)
    (h : t = { s with
      pending := pending, highestBidder := some bidder, highestBid := some amount,
      settled := some true,
      transfers := s.transfers ++ bidPay house token bidder transferred ++
        [⟨.proceeds, token, house, seller, amount⟩] }) :
    Solvent house token t := by
  have hbidder := Invocation.ne_house hbids.authorized
  obtain ⟨hpay, hnonneg, howed⟩ := hs.pending_bid hopen hbids
  subst h
  refine { hs with
    bidder_ne := fun _ hsome => Option.some.inj hsome ▸ hbidder
    priced := hs.priced_bid hbids rfl rfl rfl
    pending_nonneg := hnonneg
    held_eq := ?_ }
  rw [held_append, held_append, hs.held_eq, held_bidPay hbidder hpay (fun _ => rfl), ← howed,
    held_outgoing .proceeds amount (hs.seller_ne_house hseller), add_neg_cancel_right]
  symm
  exact owed_of_settled rfl

theorem Solvent.paid_out {winner target : Address} {highestBid : ℤ} (purpose : Purpose)
    (hs : Solvent house token s) (hopen : s.settled = some false)
    (hwinner : s.highestBidder = some winner) (hbid : s.highestBid = some highestBid)
    (htarget : target ≠ house) :
    Solvent house token { s with
      settled := some true,
      transfers := s.transfers ++ [⟨purpose, token, house, target, highestBid⟩] } := by
  apply hs.settled _ hs.sellerPending_nonneg
  rw [held_outgoing purpose highestBid htarget, liveBid_of_open (by simp [hopen]) hbid,
    outbid_of_some highestBid hwinner]
  omega

theorem Solvent.kept {winner : Address} {highestBid : ℤ} (seller : Address)
    (hs : Solvent house token s) (hopen : s.settled = some false)
    (hwinner : s.highestBidder = some winner) (hbid : s.highestBid = some highestBid) :
    Solvent house token { s with
      settled := some true,
      sellerPending :=
        s.sellerPending.insert seller (entry s.sellerPending seller + highestBid) } := by
  have hold := hs.sellerPending_nonneg.entry_nonneg seller
  have hnonneg := hs.highestBid_nonneg hbid
  have hentry : 0 ≤ entry s.sellerPending seller + highestBid := by omega
  have hnext := hs.settled [] (hs.sellerPending_nonneg.insert (k := seller) hentry) (by
    rw [held_nil, total_insert, liveBid_of_open (by simp [hopen]) hbid,
      outbid_of_some highestBid hwinner]
    omega)
  rw [List.append_nil] at hnext
  exact hnext

theorem Solvent.unsold (hs : Solvent house token s) (hopen : s.settled = some false)
    (hnobid : ∀ highestBid startPrice, s.highestBid = some highestBid →
      s.startPrice = some startPrice → s.highestBidder = none ∨ highestBid < startPrice) :
    Solvent house token { s with settled := some true } := by
  obtain ⟨highestBid, startPrice, hpriced⟩ := hs.priced
  have hnone : s.highestBidder = none := by
    rcases hnobid highestBid startPrice hpriced.highestBid_eq hpriced.startPrice_eq with
      hnone | hlow
    · exact hnone
    · rw [← Option.not_isSome_iff_eq_none]
      intro hsome
      have hreached := hpriced.reached hsome
      omega
  have hlive : liveBid s = 0 := by
    rw [liveBid_of_open (by simp [hopen]) hpriced.highestBid_eq, outbid, hnone]
    rfl
  have hnext := hs.settled [] hs.sellerPending_nonneg (by rw [held_nil, hlive]; omega)
  rw [List.append_nil] at hnext
  exact hnext

theorem exec_solvent (hs : Solvent house token s) (hlate : ¬ LateBid s i)
    (h : exec i s = .ok t) : Solvent house token t := by
  obtain ⟨highestBid, startPrice, hpriced⟩ := hs.priced
  cases exec_move hs.without_nft h with
  | started hnone => exact absurd hnone hs.started
  | bought hdutch => exact absurd hs.english hdutch
  | raised bidder other amount transferred pending hcall hbids htoken h =>
    exact hs.raised (fun hsettled => hlate (hbids.late hsettled hcall)) hbids htoken h
  | boughtNow bidder other seller amount transferred pending hcall hbids htoken hseller h =>
    obtain rfl := hs.token_unique htoken
    exact hs.bought_now (fun hsettled => hlate (hbids.late hsettled hcall)) hbids hseller h
  | unsold hcall hopen hnobid h =>
    rw [h]
    exact hs.unsold hopen hnobid
  | returned winner other highestBid hcall hopen hwinner hbid htoken h =>
    obtain rfl := hs.token_unique htoken
    rw [h]
    exact hs.paid_out .refund hopen hwinner hbid (hs.bidder_ne winner hwinner)
  | sold winner other seller highestBid hcall hopen hwinner hbid htoken hseller h =>
    obtain rfl := hs.token_unique htoken
    rw [h]
    exact hs.paid_out .proceeds hopen hwinner hbid (hs.seller_ne_house hseller)
  | owed winner seller highestBid hcall hopen hwinner hbid hseller h =>
    rw [h]
    exact hs.kept seller hopen hwinner hbid
  | refunded bidder other hcall hauth htoken h =>
    obtain rfl := hs.token_unique htoken
    rw [h]
    refine { hs with
      priced := ⟨highestBid, startPrice, { hpriced with }⟩
      pending_nonneg := hs.pending_nonneg.erase bidder
      held_eq := ?_ }
    rw [held_append, hs.held_eq, held_outgoing .refund _ (Invocation.ne_house hauth)]
    simp only [Auction.owed, total_erase, pendingOf, liveBid, outbid]
    omega
  | collected seller other hcall hauth htoken h =>
    obtain rfl := hs.token_unique htoken
    rw [h]
    refine { hs with
      priced := ⟨highestBid, startPrice, { hpriced with }⟩
      sellerPending_nonneg := hs.sellerPending_nonneg.erase seller
      held_eq := ?_ }
    rw [held_append, hs.held_eq, held_outgoing .proceeds _ (Invocation.ne_house hauth)]
    simp only [Auction.owed, total_erase, liveBid, outbid]
    omega
  | cancelled seller auctionIds hcall h =>
    rw [h]
    exact { hs with priced := ⟨highestBid, startPrice, { hpriced with }⟩ }

theorem exec_settled (hs : Solvent house token s) (hsettled : s.settled = some true)
    (hlate : ¬ LateBid s i) (h : exec i s = .ok t) :
    (∀ bidder amount, i.call ≠ .bid bidder amount ∧ i.call ≠ .bidWithCredit bidder amount) ∧
      ∀ bidder, pendingOf t bidder ≤ pendingOf s bidder := by
  cases exec_move hs.without_nft h with
  | started hnone => exact absurd hnone hs.started
  | bought hdutch => exact absurd hs.english hdutch
  | raised _ _ _ _ _ hcall hbids | boughtNow _ _ _ _ _ _ hcall hbids =>
    exact absurd (hbids.late hsettled hcall) hlate
  | unsold _ hopen | returned _ _ _ _ hopen | sold _ _ _ _ _ hopen | owed _ _ _ _ hopen =>
    rw [hsettled] at hopen
    cases hopen
  | refunded bidder other hcall hauth htoken h =>
    refine ⟨fun _ _ => by simp [hcall], fun holder => ?_⟩
    subst h
    unfold pendingOf
    by_cases hsame : holder = bidder
    · subst hsame
      rw [entry_erase_self]
      exact hs.pending_nonneg.entry_nonneg holder
    · rw [entry_erase_of_ne _ hsame]
  | collected _ _ hcall _ _ h | cancelled _ _ hcall h =>
    refine ⟨fun _ _ => by simp [hcall], fun holder => ?_⟩
    rw [h]
    exact le_refl _

theorem Solvent.withdraw_ok {ledger : Ledger} {bidder : Address} (hs : Solvent house token s)
    (hledger : 0 ≤ ledger token house) (hauth : bidder ∈ i.auths) (hpending : 0 < pendingOf s bidder)
    (hpays : i.tokens.Pays ledger s.transfers token house) :
    ∃ t, withdraw house i.toEnv bidder s = .ok t := by
  have hcovered : pendingOf s bidder ≤ replay ledger s.transfers token house := by
    have hentry : pendingOf s bidder ≤ total s.pending := hs.pending_nonneg.entry_le_total bidder
    have hseller := hs.sellerPending_nonneg.total_nonneg
    have hlive : 0 ≤ liveBid s := by
      obtain ⟨highestBid, startPrice, hpriced⟩ := hs.priced
      unfold liveBid outbid
      rw [hpriced.highestBid_eq, Option.getD_some]
      have hnonneg := hpriced.nonneg
      split_ifs <;> omega
    have hheld := hs.held_eq
    unfold held owed at hheld
    rw [replay_balance]
    omega
  have haccepts := hpays ⟨.refund, token, house, bidder, pendingOf s bidder⟩ rfl rfl
    (le_of_lt hpending) hcovered
  refine ⟨{ s with
    pending := s.pending.erase bidder
    transfers := s.transfers ++ [⟨.refund, token, house, bidder, pendingOf s bidder⟩] }, ?_⟩
  simp only [withdraw, bind_eq_ok, requireAuth_eq_ok, rejectIf_eq_ok, not_le, getInstance, okOr_eq_ok]
  exact ⟨(), hauth, (), hpending, token, hs.token_eq, recordTransfer_accepted haccepts⟩

end Steps

theorem start_solvent {house seller token : Address} {env : Env} {startPrice minIncrement : ℤ}
    {deadline extensionWindow maxDeadline cancellationGraceLedgers : ℕ} {cancellationFee : ℤ}
    {reservePrice buyItNowPrice : Option ℤ} {s : State} (houtside : house ∉ env.auths)
    (h : start house env seller token startPrice minIncrement deadline reservePrice extensionWindow
      maxDeadline cancellationGraceLedgers cancellationFee buyItNowPrice none none State.empty =
        .ok s) : Solvent house token s := by
  simp only [start, bind_eq_ok, rejectIf_eq_ok, okOr_eq_ok, checkedSub_eq_some, requireAuth_eq_ok,
    escrowNft, pure_eq_ok, not_or, not_le] at h
  obtain ⟨_, _, _, ⟨hprice, hincrement, _⟩, _, _, _, _, _, ⟨_, rfl⟩, _, hauth, rfl⟩ := h
  have hseller : seller ≠ house := by
    rintro rfl
    exact houtside hauth
  have hpriced : 0 ≤ startPrice - 1 := by omega
  exact ⟨rfl, ⟨seller, rfl, hseller⟩, rfl, rfl, fun _ hbidder => (by cases hbidder),
    ⟨startPrice - 1, startPrice, rfl, rfl, fun _ hmin => Option.some.inj hmin ▸ hincrement, hprice,
      hpriced, fun hbidder => (by cases hbidder)⟩, nonneg_empty, nonneg_empty, rfl⟩

/-- An English auction in any run without a late bid: the contract holds exactly the refunds,
    the kept proceeds and the bid that stands, so that every refund can be withdrawn, and a
    settled auction takes no bid and queues no refund. -/
theorem auction_solvency (house seller token : Address) (startPrice minIncrement : ℤ) (deadline : ℕ)
    (reservePrice : Option ℤ) (extensionWindow maxDeadline cancellationGraceLedgers : ℕ)
    (cancellationFee : ℤ) (buyItNowPrice : Option ℤ) (i₀ : Invocation house) (s : State)
    (hcall : i₀.call = .start seller token startPrice minIncrement deadline reservePrice
      extensionWindow maxDeadline cancellationGraceLedgers cancellationFee buyItNowPrice none none)
    (hstart : exec i₀ State.empty = .ok s) (is : List (Invocation house))
    (hlate : Along exec (fun s i => ¬ LateBid s i) s is) :
    (∀ ledger : Ledger, replay ledger (run s is).transfers token house =
      ledger token house + total (run s is).pending + total (run s is).sellerPending +
        liveBid (run s is)) ∧
    (∀ (ledger : Ledger) (i : Invocation house) (bidder : Address), i.call = .withdraw bidder →
      bidder ∈ i.auths → 0 < pendingOf (run s is) bidder → 0 ≤ ledger token house →
      i.tokens.Pays ledger (run s is).transfers token house → ∃ t, exec i (run s is) = .ok t) ∧
    ∀ e ∈ history exec s is, e.before.settled = some true →
      (∀ bidder amount, e.invocation.call ≠ .bid bidder amount ∧
        e.invocation.call ≠ .bidWithCredit bidder amount) ∧
      ∀ bidder, pendingOf e.after bidder ≤ pendingOf e.before bidder := by
  have hs : Solvent house token s := by
    unfold exec at hstart
    rw [hcall] at hstart
    exact start_solvent i₀.outside hstart
  have hrun : Solvent house token (run s is) :=
    run_invariant_along (fun _ _ _ hs hi hok => exec_solvent hs hi hok) hs hlate
  refine ⟨fun ledger => ?_, fun ledger i bidder hwithdraw hauth hpending hledger hpays => ?_,
    fun e he hsettled => ?_⟩
  · have hheld := hrun.held_eq
    unfold held owed at hheld
    rw [replay_balance]
    omega
  · obtain ⟨t, ht⟩ := hrun.withdraw_ok hledger hauth hpending hpays
    refine ⟨t, ?_⟩
    unfold exec
    rw [hwithdraw]
    exact ht
  · obtain ⟨hbefore, hi, hok⟩ :=
      history_mem (fun _ _ _ hs hi hok => exec_solvent hs hi hok) hs hlate he
    exact exec_settled hbefore hsettled hi hok

def demoHouse : Address := ⟨30⟩
def demoSeller : Address := ⟨31⟩
def demoToken : Address := ⟨32⟩
def demoAlice : Address := ⟨33⟩
def demoBob : Address := ⟨34⟩

def demoLedger : Ledger := fun _ holder => if holder = demoHouse then 0 else 1000

def demoCall (sequence : ℕ) (call : Call) : Invocation demoHouse where
  sequence := sequence
  auths := [demoSeller, demoAlice, demoBob]
  tokens := honestReplies demoLedger
  nftAccepts _ := false
  royaltyInfo _ _ _ := none
  call := call
  outside := by decide

def demoStart (buyItNowPrice : Option ℤ) : Invocation demoHouse :=
  demoCall 1 (.start demoSeller demoToken 50 10 100 none 0 100 0 0 buyItNowPrice none none)

def demoBids : List (Invocation demoHouse) :=
  [demoCall 2 (.bid demoAlice 100), demoCall 3 (.bid demoBob 200)]

/-- Alice is outbid: her bid is a refund, Bob's stands, and she can withdraw. -/
theorem auction_solvency_demo :
    replay demoLedger (run State.empty (demoStart none :: demoBids)).transfers demoToken demoHouse =
      0 + 100 + 0 + 200 ∧
    ∃ t, exec (demoCall 4 (.withdraw demoAlice)) (run State.empty (demoStart none :: demoBids)) =
      .ok t := by
  have hopen : ∀ s (i : Invocation demoHouse), s.settled = some false → ¬ LateBid s i := by
    rintro s i hopen ⟨hsettled, _⟩
    rw [hopen] at hsettled
    cases hsettled
  obtain ⟨hbalance, hwithdraw, _⟩ := auction_solvency demoHouse demoSeller demoToken 50 10 100 none 0
    100 0 0 none (demoStart none) (run State.empty [demoStart none]) rfl rfl demoBids
    ⟨hopen _ _ rfl, hopen _ _ rfl, trivial⟩
  exact ⟨hbalance demoLedger, hwithdraw demoLedger (demoCall 4 (.withdraw demoAlice)) demoAlice rfl
    (by decide) (by decide +kernel) (by decide) (honestReplies_pays _ _ _ _)⟩

/-- Alice buys at the buy-it-now price and Bob bids on: the price that was paid to the seller
    becomes a refund of Alice, and the contract holds nothing to pay it with. -/
theorem settled_bid_unbacked :
    (run State.empty [demoStart (some 100), demoCall 2 (.bid demoAlice 100)]).settled = some true ∧
      (∃ t, exec (demoCall 3 (.bid demoBob 200))
        (run State.empty [demoStart (some 100), demoCall 2 (.bid demoAlice 100)]) = .ok t) ∧
      pendingOf (run State.empty (demoStart (some 100) :: demoBids)) demoAlice = 100 ∧
      replay demoLedger (run State.empty (demoStart (some 100) :: demoBids)).transfers demoToken
        demoHouse = 0 ∧
      exec (demoCall 4 (.withdraw demoAlice)) (run State.empty (demoStart (some 100) :: demoBids)) =
        .error .trap := by
  refine ⟨rfl, ⟨_, rfl⟩, by decide +kernel, by decide +kernel, rfl⟩

end SorobanKit.Auction
