import Mathlib.Data.List.Chain
import SorobanKit.AuctionSolvency

set_option autoImplicit false

/-!
# Bidding in an English auction

The bids that an auction without a buy-it-now price accepts, the deadline that each of them
leaves behind, and a bid with credit next to the same bid without.
-/
namespace SorobanKit.Auction
open CommonMath HostBalances HostInteger HostInvocation HostRuns HostTransfers

/-- What `start` stores for good. -/
structure Terms where
  seller : Option Address
  token : Option Address
  startPrice : Option ℤ
  minIncrement : Option ℤ
  extensionWindow : Option ℕ
  maxDeadline : Option ℕ
  buyItNowPrice : Option ℤ
  dutchConfig : Option DutchConfig
  deriving DecidableEq

def terms (s : State) : Terms :=
  ⟨s.seller, s.token, s.startPrice, s.minIncrement, s.extensionWindow, s.maxDeadline, s.buyItNowPrice,
    s.dutchConfig⟩

/-- An English auction without a buy-it-now price. -/
def openTerms (seller token : Address) (startPrice minIncrement : ℤ)
    (extensionWindow maxDeadline : ℕ) : Terms :=
  ⟨some seller, some token, some startPrice, some minIncrement, some extensionWindow, some maxDeadline,
    none, none⟩

/-- The amount that a call bids. -/
def bidAmount : Call → Option ℤ
  | .bid _ amount => some amount
  | .bidWithCredit _ totalBid => some totalBid
  | _ => none

/-- The amounts of the bids that returned, in order. -/
def acceptedBids {house : Address} (entries : List (Entry State (Invocation house))) : List ℤ :=
  entries.filterMap fun e => bidAmount e.invocation.call

/-- The deadline that a bid at ledger `now` leaves behind. -/
def nextDeadline (now extensionWindow maxDeadline deadline : ℕ) : ℕ :=
  if 0 < extensionWindow ∧ saturatingSubU32 deadline now ≤ extensionWindow then
    max deadline (min (saturatingAddU32 deadline extensionWindow) maxDeadline)
  else deadline

/-- What a bidder can claim back, with what the transfers of the auction gave or took. -/
def stake (token holder : Address) (s : State) : ℤ :=
  pendingOf s holder + gain token holder s.transfers

section Deadlines
variable {now extensionWindow maxDeadline deadline : ℕ}

theorem le_nextDeadline : deadline ≤ nextDeadline now extensionWindow maxDeadline deadline := by
  unfold nextDeadline
  split <;> omega

theorem nextDeadline_le (h : deadline ≤ maxDeadline) :
    nextDeadline now extensionWindow maxDeadline deadline ≤ maxDeadline := by
  unfold nextDeadline
  split <;> omega

theorem nextDeadline_window (h : now ≤ deadline) :
    min (saturatingAddU32 now extensionWindow) maxDeadline ≤
      nextDeadline now extensionWindow maxDeadline deadline := by
  unfold nextDeadline saturatingAddU32 saturatingSubU32
  split <;> omega

end Deadlines

section Bids
variable {house token bidder : Address} {env : Env} {s t : State}

theorem extendDeadline_next {deadline : ℕ} (h : s.deadline = some deadline) :
    extendDeadline env deadline s = { s with
      deadline := some (nextDeadline env.sequence (s.extensionWindow.getD 0)
        (s.maxDeadline.getD u32Max) deadline) } := by
  unfold extendDeadline nextDeadline
  dsimp only
  split
  · split
    · next hlater => rw [max_eq_right (le_of_lt hlater)]
    · next hnot => rw [max_eq_left (not_lt.mp hnot), ← h]
  · rw [← h]

theorem gain_bidPay {holder : Address} {transferred : ℤ} (hnonneg : 0 ≤ transferred)
    (hbidder : bidder ≠ house) (hholder : holder ≠ house) :
    gain token holder (bidPay house token bidder transferred) =
      if holder = bidder then -transferred else 0 := by
  unfold bidPay
  split
  · split
    · next hsame =>
      rw [hsame]
      exact gain_outgoing Purpose.bid transferred hbidder.symm
    · next hother =>
      simp [gain, received, sent, Ne.symm hother, hholder.symm]
  · next hzero =>
    rw [gain_nil]
    split <;> omega

theorem requiredTransfer_stake {amount transferred : ℤ} {useCredit : Bool} (hamount : 0 < amount)
    (h : requiredTransfer bidder amount useCredit s = .ok (transferred, t)) :
    t.transfers = s.transfers ∧ 0 ≤ transferred ∧
      ∀ holder, pendingOf t holder - (if holder = bidder then transferred else 0) =
        pendingOf s holder - if holder = bidder then amount else 0 := by
  cases useCredit with
  | false =>
    simp only [requiredTransfer, Bool.false_eq_true, if_false, pure_eq_ok, Prod.mk.injEq] at h
    obtain ⟨rfl, rfl⟩ := h
    exact ⟨rfl, le_of_lt hamount, fun _ => rfl⟩
  | true =>
    simp only [requiredTransfer, if_true, applyCredit, bind_eq_ok, okOr_eq_ok, checkedSub_eq_some,
      pure_eq_ok, Prod.mk.injEq, setPending_eq] at h
    obtain ⟨_, ⟨_, rfl⟩, _, ⟨_, rfl⟩, rfl, rfl⟩ := h
    refine ⟨rfl, by omega, fun holder => ?_⟩
    simp only [pendingOf, entry_store]
    split
    · next hsame =>
      rw [hsame]
      omega
    · rfl

theorem queueRefund_transfers {highestBid : ℤ} (h : queueRefund highestBid s = .ok t) :
    t.transfers = s.transfers := by
  unfold queueRefund at h
  split at h
  · simp only [bind_eq_ok, pure_eq_ok, setPending_eq] at h
    obtain ⟨_, _, rfl⟩ := h
    rfl
  · rw [← pure_eq_ok.mp h]

/-- What an accepted bid leaves behind, whichever way it was paid for. -/
structure Accepted (house token bidder : Address) (amount : ℤ) (now : ℕ) (s t : State) : Prop where
  terms_eq : terms t = terms s
  highestBidder_eq : t.highestBidder = some bidder
  highestBid_eq : t.highestBid = some amount
  enough : ∃ highestBid minIncrement startPrice, s.highestBid = some highestBid ∧
    s.minIncrement = some minIncrement ∧ s.startPrice = some startPrice ∧
    (if highestBid < startPrice then startPrice else highestBid + minIncrement) ≤ amount
  extended : ∃ deadline, s.deadline = some deadline ∧ now ≤ deadline ∧
    t.deadline = some (nextDeadline now (s.extensionWindow.getD 0) (s.maxDeadline.getD u32Max) deadline)
  stake_eq : ∃ highestBid queued, s.highestBid = some highestBid ∧
    queueRefund highestBid s = .ok queued ∧ ∀ holder, holder ≠ house →
      stake token holder t = stake token holder queued - if holder = bidder then amount else 0

theorem placeBid_accepted {amount : ℤ} {useCredit : Bool} (houtside : house ∉ env.auths)
    (hnone : s.buyItNowPrice = none) (htoken : s.token = some token)
    (h : placeBid house env bidder amount useCredit s = .ok t) :
    Accepted house token bidder amount env.sequence s t := by
  simp only [placeBid, bind_eq_ok, rejectIf_eq_ok, getInstance, okOr_eq_ok, requireAuth_eq_ok, not_le,
    not_lt] at h
  obtain ⟨_, hpos, _, _, _, _, deadline, hdeadline, _, hopen, highestBid, hhighest, minIncrement,
    hincrement, startPrice, hprice, least, hrequired, _, henough, _, hauth, queued, hqueue,
    ⟨transferred, s₂⟩, hcredit, h⟩ := h
  have hbidder : bidder ≠ house := by
    rintro rfl
    exact houtside hauth
  obtain ⟨hs₂, _⟩ := refunds_ok hpos hqueue hcredit
  obtain ⟨hlog, hnonneg, hstake⟩ := requiredTransfer_stake hpos hcredit
  rw [hs₂, if_neg (by simp [hnone]), extendDeadline_next (by exact hdeadline)] at h
  -- a bid that credit covers is not transferred
  have ht : t = { s with
      pending := s₂.pending, highestBidder := some bidder, highestBid := some amount,
      deadline := some (nextDeadline env.sequence (s.extensionWindow.getD 0)
        (s.maxDeadline.getD u32Max) deadline),
      transfers := s.transfers ++ bidPay house token bidder transferred } := by
    split at h
    · simp only [bind_eq_ok, okOr_eq_ok] at h
      obtain ⟨stored, hstored, h⟩ := h
      have hsame : some token = some stored := htoken.symm.trans hstored
      cases hsame
      exact takeBid_ok h
    · next hcovered =>
      rw [bidPay, if_neg hcovered, List.append_nil]
      exact (pure_eq_ok.mp h).symm
  rw [ht]
  refine ⟨rfl, rfl, rfl, ⟨highestBid, minIncrement, startPrice, hhighest, hincrement, hprice, ?_⟩,
    ⟨deadline, hdeadline, hopen, rfl⟩, ⟨highestBid, queued, hhighest, hqueue, fun holder hholder => ?_⟩⟩
  · rw [← minRequired_ok hrequired]
    exact henough
  · have hpaid : gain token holder (bidPay house token bidder transferred) = _ :=
      gain_bidPay hnonneg hbidder hholder
    have hone := hstake holder
    change pendingOf s₂ holder +
      gain token holder (s.transfers ++ bidPay house token bidder transferred) =
        pendingOf queued holder + gain token holder queued.transfers - _
    rw [queueRefund_transfers hqueue, gain_append, hpaid]
    by_cases hsame : holder = bidder
    · rw [if_pos hsame] at hone ⊢
      rw [if_pos hsame] at hone ⊢
      omega
    · rw [if_neg hsame] at hone ⊢
      rw [if_neg hsame] at hone ⊢
      omega

theorem Accepted.same {amount : ℤ} {now : ℕ} {u : State}
    (ht : Accepted house token bidder amount now s t)
    (hu : Accepted house token bidder amount now s u) :
    t.highestBid = u.highestBid ∧ t.highestBidder = u.highestBidder ∧ t.deadline = u.deadline ∧
      ∀ holder, holder ≠ house → stake token holder t = stake token holder u := by
  obtain ⟨deadline, hdeadline, _, htnext⟩ := ht.extended
  obtain ⟨_, hstored, _, hunext⟩ := hu.extended
  obtain ⟨highestBid, queued, hbid, htqueue, htstake⟩ := ht.stake_eq
  obtain ⟨_, _, hsame, huqueue, hustake⟩ := hu.stake_eq
  rw [hdeadline] at hstored
  cases hstored
  rw [hbid] at hsame
  cases hsame
  rw [htqueue] at huqueue
  cases huqueue
  refine ⟨ht.highestBid_eq.trans hu.highestBid_eq.symm,
    ht.highestBidder_eq.trans hu.highestBidder_eq.symm, htnext.trans hunext.symm, fun holder hne => ?_⟩
  rw [htstake holder hne, hustake holder hne]

end Bids

/-- What the calls other than bids leave alone. -/
structure Unbid (s t : State) : Prop where
  terms_eq : terms t = terms s
  highestBid_eq : t.highestBid = s.highestBid
  deadline_eq : t.deadline = s.deadline

section Others
variable {house : Address} {i : Invocation house} {s t : State}

theorem tryTransfer_eq {env : Env} {x : Transfer Purpose} {paid : Bool}
    (h : tryTransfer env x s = (paid, t)) : t = { s with transfers := t.transfers } := by
  unfold tryTransfer at h
  split at h <;> cases h <;> rfl

theorem payRoyalty_ok {env : Env} {token : Address} {highestBid proceeds : ℤ}
    (h : payRoyalty house env token highestBid s = .ok (proceeds, t)) :
    t = { s with transfers := t.transfers } := by
  unfold payRoyalty at h
  split at h
  · split at h
    · split at h
      · split at h
        · next htry =>
          simp only [bind_eq_ok, pure_eq_ok, Prod.mk.injEq] at h
          obtain ⟨_, _, _, rfl⟩ := h
          exact tryTransfer_eq htry
        · next htry =>
          simp only [pure_eq_ok, Prod.mk.injEq] at h
          obtain ⟨_, rfl⟩ := h
          exact tryTransfer_eq htry
      · cases h
        rfl
    · cases h
      rfl
  · cases h
    rfl

theorem endAuction_unbid {env : Env} (h : endAuction house env s = .ok t) : Unbid s t := by
  simp only [endAuction, bind_eq_ok] at h
  obtain ⟨_, _, _, _, _, _, _, _, _, _, _, _, _, _, _, _, _, _, h⟩ := h
  split at h
  · simp only [bind_eq_ok, pure_eq_ok] at h
    obtain ⟨_, _, rfl⟩ := h
    exact ⟨rfl, rfl, rfl⟩
  · simp only [bind_eq_ok] at h
    obtain ⟨_, _, h⟩ := h
    split at h
    · simp only [bind_eq_ok, pure_eq_ok] at h
      obtain ⟨_, hpay, _, _, rfl⟩ := h
      rw [recordTransfer_ok hpay]
      exact ⟨rfl, rfl, rfl⟩
    · simp only [bind_eq_ok, pure_eq_ok] at h
      obtain ⟨⟨_, s₁⟩, hroyalty, _, hpay, _, _, rfl⟩ := h
      rcases paySeller_ok hpay with hpaid | howed
      · rw [hpaid, payRoyalty_ok hroyalty]
        exact ⟨rfl, rfl, rfl⟩
      · rw [howed, payRoyalty_ok hroyalty]
        exact ⟨rfl, rfl, rfl⟩

theorem exec_unbid (hstarted : s.seller ≠ none) (henglish : s.dutchConfig = none)
    (hcall : bidAmount i.call = none) (h : exec i s = .ok t) : Unbid s t := by
  unfold exec at h
  cases hkind : i.call with
  | start =>
    simp only [hkind, start, bind_eq_ok, rejectIf_eq_ok] at h
    obtain ⟨_, hnone, _⟩ := h
    exact absurd (by simpa using hnone) hstarted
  | startDutch =>
    simp only [hkind, startDutch, bind_eq_ok, rejectIf_eq_ok] at h
    obtain ⟨_, hnone, _⟩ := h
    exact absurd (by simpa using hnone) hstarted
  | buy =>
    simp only [hkind, buy, bind_eq_ok, okOr_eq_ok, henglish] at h
    obtain ⟨_, _, _, hcfg, _⟩ := h
    cases hcfg
  | bid | bidWithCredit =>
    rw [hkind] at hcall
    cases hcall
  | endAuction =>
    rw [hkind] at h
    exact endAuction_unbid h
  | withdraw =>
    simp only [hkind, withdraw, bind_eq_ok] at h
    obtain ⟨_, _, _, _, _, _, hpay⟩ := h
    rw [recordTransfer_ok hpay]
    exact ⟨rfl, rfl, rfl⟩
  | withdrawSellerProceeds =>
    simp only [hkind, withdrawSellerProceeds, bind_eq_ok] at h
    obtain ⟨_, _, _, _, _, _, hpay⟩ := h
    rw [recordTransfer_ok hpay]
    exact ⟨rfl, rfl, rfl⟩
  | cancelAuctionsBatch =>
    simp only [hkind, cancelAuctionsBatch, bind_eq_ok] at h
    obtain ⟨_, _, _, _, _, _, _, _, h⟩ := h
    rw [cancelEach_ok h]
    exact ⟨rfl, rfl, rfl⟩

/-- Every returning call of an English auction without a buy-it-now price is an accepted bid, or
    leaves the bidding alone. -/
theorem exec_bidding {token : Address} (hstarted : s.seller ≠ none) (henglish : s.dutchConfig = none)
    (hnone : s.buyItNowPrice = none) (htoken : s.token = some token) (h : exec i s = .ok t) :
    (∃ bidder amount, bidAmount i.call = some amount ∧
      Accepted house token bidder amount i.sequence s t) ∨
    bidAmount i.call = none ∧ Unbid s t := by
  cases hcall : bidAmount i.call with
  | none => exact .inr ⟨rfl, exec_unbid hstarted henglish hcall h⟩
  | some amount =>
    left
    unfold exec at h
    cases hkind : i.call with
    | bid bidder | bidWithCredit bidder =>
      rw [hkind] at h hcall
      cases hcall
      exact ⟨bidder, amount, rfl, placeBid_accepted i.outside hnone htoken h⟩
    | start | startDutch | buy | endAuction | withdraw | withdrawSellerProceeds |
      cancelAuctionsBatch =>
      rw [hkind] at hcall
      cases hcall

end Others

/-- The terms that were set and the bids on them. Before the first bid the highest one is one below
    the start price, which no bid can be. -/
structure Open (seller token : Address) (startPrice minIncrement : ℤ)
    (first extensionWindow maxDeadline : ℕ) (bids : List ℤ) (s : State) : Prop where
  terms_eq : terms s = openTerms seller token startPrice minIncrement extensionWindow maxDeadline
  reached : ∀ amount ∈ bids, startPrice ≤ amount
  steps : bids.IsChain fun a b => a + minIncrement ≤ b
  highestBid_eq : s.highestBid = some (bids.getLast?.getD (startPrice - 1))
  deadline_mem : ∃ deadline, s.deadline = some deadline ∧ first ≤ deadline ∧ deadline ≤ maxDeadline

section Invariant
variable {house seller token : Address} {startPrice minIncrement : ℤ}
  {first extensionWindow maxDeadline : ℕ} {bids : List ℤ} {i : Invocation house} {s t : State}

theorem Open.cases
    (hs : Open seller token startPrice minIncrement first extensionWindow maxDeadline bids s)
    (h : exec i s = .ok t) :
    (∃ bidder amount, bidAmount i.call = some amount ∧
      Accepted house token bidder amount i.sequence s t) ∨
    bidAmount i.call = none ∧ Unbid s t := by
  have hseller : s.seller = some seller := congrArg Terms.seller hs.terms_eq
  exact exec_bidding (by rw [hseller]; exact Option.some_ne_none seller)
    (congrArg Terms.dutchConfig hs.terms_eq) (congrArg Terms.buyItNowPrice hs.terms_eq)
    (congrArg Terms.token hs.terms_eq) h

theorem Open.snoc {amount : ℤ} (hincrement : 0 < minIncrement)
    (hs : Open seller token startPrice minIncrement first extensionWindow maxDeadline bids s)
    (h : (if bids.getLast?.getD (startPrice - 1) < startPrice then startPrice
      else bids.getLast?.getD (startPrice - 1) + minIncrement) ≤ amount) :
    startPrice ≤ amount ∧ (bids ++ [amount]).IsChain fun a b => a + minIncrement ≤ b := by
  constructor
  · split at h <;> omega
  · rw [List.isChain_append]
    refine ⟨hs.steps, List.isChain_singleton amount, fun last hlast next hnext => ?_⟩
    have hreached := hs.reached last (List.mem_of_getLast? hlast)
    cases hnext
    rw [Option.mem_def.mp hlast, Option.getD_some, if_neg (not_lt.mpr hreached)] at h
    exact h

theorem Open.accepted {bidder : Address} {amount : ℤ} {now : ℕ} (hincrement : 0 < minIncrement)
    (hs : Open seller token startPrice minIncrement first extensionWindow maxDeadline bids s)
    (h : Accepted house token bidder amount now s t) :
    Open seller token startPrice minIncrement first extensionWindow maxDeadline
      (bids ++ [amount]) t := by
  have hincrementEq : s.minIncrement = some minIncrement := congrArg Terms.minIncrement hs.terms_eq
  have hpriceEq : s.startPrice = some startPrice := congrArg Terms.startPrice hs.terms_eq
  have hcapEq : s.maxDeadline = some maxDeadline := congrArg Terms.maxDeadline hs.terms_eq
  obtain ⟨highestBid, increment, price, hbid, hinc, hprice, henough⟩ := h.enough
  rw [hs.highestBid_eq] at hbid
  cases hbid
  rw [hincrementEq] at hinc
  cases hinc
  rw [hpriceEq] at hprice
  cases hprice
  obtain ⟨hreached, hsteps⟩ := hs.snoc hincrement henough
  obtain ⟨deadline, hdeadline, _, hnext⟩ := h.extended
  obtain ⟨_, hstored, hfirst, hcap⟩ := hs.deadline_mem
  rw [hdeadline] at hstored
  cases hstored
  rw [hcapEq, Option.getD_some] at hnext
  refine ⟨h.terms_eq.trans hs.terms_eq, fun bid hbid => ?_, hsteps, ?_,
    ⟨_, hnext, hfirst.trans le_nextDeadline, nextDeadline_le hcap⟩⟩
  · rcases List.mem_append.mp hbid with hold | hnew
    · exact hs.reached bid hold
    · rw [List.mem_singleton.mp hnew]
      exact hreached
  · rw [h.highestBid_eq, List.getLast?_concat, Option.getD_some]

theorem Open.unbid
    (hs : Open seller token startPrice minIncrement first extensionWindow maxDeadline bids s)
    (h : Unbid s t) :
    Open seller token startPrice minIncrement first extensionWindow maxDeadline bids t := by
  refine ⟨h.terms_eq.trans hs.terms_eq, hs.reached, hs.steps, ?_, ?_⟩
  · rw [h.highestBid_eq]
    exact hs.highestBid_eq
  · rw [h.deadline_eq]
    exact hs.deadline_mem

theorem exec_open {past : List (Entry State (Invocation house))} (hincrement : 0 < minIncrement)
    (hs : Open seller token startPrice minIncrement first extensionWindow maxDeadline
      (acceptedBids past) s)
    (h : exec i s = .ok t) :
    Open seller token startPrice minIncrement first extensionWindow maxDeadline
      (acceptedBids (past ++ [⟨s, i, t⟩])) t := by
  have hbids : acceptedBids (past ++ [⟨s, i, t⟩]) =
      acceptedBids past ++ (bidAmount i.call).toList := by
    simp only [acceptedBids, List.filterMap_append, List.filterMap_cons, List.filterMap_nil]
    cases bidAmount i.call <;> rfl
  rw [hbids]
  rcases hs.cases h with ⟨bidder, amount, hcall, hbid⟩ | ⟨hcall, hother⟩
  · rw [hcall]
    exact hs.accepted hincrement hbid
  · rw [hcall, Option.toList_none, List.append_nil]
    exact hs.unbid hother

/-- One call moves the deadline up at most, and a bid leaves a full window, unless the cap is
    reached. -/
theorem exec_deadline {deadline next : ℕ}
    (hs : Open seller token startPrice minIncrement first extensionWindow maxDeadline bids s)
    (h : exec i s = .ok t) (hdeadline : s.deadline = some deadline) (hnext : t.deadline = some next) :
    deadline ≤ next ∧ (bidAmount i.call ≠ none →
      min (saturatingAddU32 i.sequence extensionWindow) maxDeadline ≤ next) := by
  rcases hs.cases h with ⟨bidder, amount, hcall, hbid⟩ | ⟨hcall, hother⟩
  · obtain ⟨stored, hstored, hopen, hextended⟩ := hbid.extended
    rw [hdeadline] at hstored
    cases hstored
    have hwindow : s.extensionWindow = some extensionWindow := congrArg Terms.extensionWindow hs.terms_eq
    have hcap : s.maxDeadline = some maxDeadline := congrArg Terms.maxDeadline hs.terms_eq
    rw [hnext, hwindow, hcap, Option.getD_some, Option.getD_some] at hextended
    rw [Option.some.inj hextended]
    exact ⟨le_nextDeadline, fun _ => nextDeadline_window hopen⟩
  · rw [hother.deadline_eq, hdeadline] at hnext
    cases hnext
    exact ⟨le_refl _, fun hcalled => absurd hcall hcalled⟩

theorem Open.credit {env : Env} {bidder : Address} {totalBid : ℤ} {u : State}
    (houtside : house ∉ env.auths)
    (hs : Open seller token startPrice minIncrement first extensionWindow maxDeadline bids s)
    (ht : bid house env bidder totalBid s = .ok t)
    (hu : bidWithCredit house env bidder totalBid s = .ok u) :
    t.highestBid = u.highestBid ∧ t.highestBidder = u.highestBidder ∧ t.deadline = u.deadline ∧
      ∀ (ledger : Ledger) (holder : Address), holder ≠ house →
        pendingOf t holder + replay ledger t.transfers token holder =
          pendingOf u holder + replay ledger u.transfers token holder := by
  have hnone : s.buyItNowPrice = none := congrArg Terms.buyItNowPrice hs.terms_eq
  have htoken : s.token = some token := congrArg Terms.token hs.terms_eq
  have hplain := placeBid_accepted houtside hnone htoken ht
  have hcredit := placeBid_accepted houtside hnone htoken hu
  obtain ⟨hbid, hbidder, hdeadline, hstake⟩ := hplain.same hcredit
  refine ⟨hbid, hbidder, hdeadline, fun ledger holder hholder => ?_⟩
  have hsame := hstake holder hholder
  unfold stake at hsame
  rw [replay_eq_gain, replay_eq_gain]
  omega

end Invariant

theorem start_open {house seller token : Address} {env : Env} {startPrice minIncrement : ℤ}
    {deadline extensionWindow maxDeadline cancellationGraceLedgers : ℕ} {cancellationFee : ℤ}
    {reservePrice : Option ℤ} {nftContract : Option Address} {tokenId : Option ℕ} {s : State}
    (h : start house env seller token startPrice minIncrement deadline reservePrice extensionWindow
      maxDeadline cancellationGraceLedgers cancellationFee none nftContract tokenId State.empty =
        .ok s) :
    0 < minIncrement ∧
      Open seller token startPrice minIncrement deadline extensionWindow maxDeadline [] s := by
  simp only [start, bind_eq_ok, rejectIf_eq_ok, okOr_eq_ok, checkedSub_eq_some, not_or, not_le,
    not_lt] at h
  obtain ⟨_, _, _, ⟨_, hincrement, _⟩, _, ⟨_, hcap⟩, _, _, _, ⟨_, rfl⟩, _, _, h⟩ := h
  refine ⟨hincrement, ?_⟩
  unfold escrowNft at h
  split at h
  · simp only [bind_eq_ok, pure_eq_ok] at h
    obtain ⟨_, _, rfl⟩ := h
    exact ⟨rfl, fun _ hnil => absurd hnil List.not_mem_nil, List.isChain_nil, rfl,
      ⟨deadline, rfl, le_refl _, hcap⟩⟩
  · rw [pure_eq_ok] at h
    subst h
    exact ⟨rfl, fun _ hnil => absurd hnil List.not_mem_nil, List.isChain_nil, rfl,
      ⟨deadline, rfl, le_refl _, hcap⟩⟩

/-- An English auction without a buy-it-now price in any run. The accepted bids start at the start
    price and rise by the increment at least; the deadline never falls and stays within
    `maxDeadline`, and every bid leaves a full extension window, unless that cap is reached; a bid
    with credit leaves the same highest bid and deadline as the same bid without, and everyone the
    same sum of refund and tokens. -/
theorem bidding_rules (house seller token : Address) (startPrice minIncrement : ℤ) (deadline : ℕ)
    (reservePrice : Option ℤ) (extensionWindow maxDeadline cancellationGraceLedgers : ℕ)
    (cancellationFee : ℤ) (nftContract : Option Address) (tokenId : Option ℕ)
    (i₀ : Invocation house) (s : State)
    (hcall : i₀.call = .start seller token startPrice minIncrement deadline reservePrice
      extensionWindow maxDeadline cancellationGraceLedgers cancellationFee none nftContract tokenId)
    (hstart : exec i₀ State.empty = .ok s) (is : List (Invocation house)) :
    ((∀ amount ∈ acceptedBids (history exec s is), startPrice ≤ amount) ∧
      (acceptedBids (history exec s is)).Pairwise (· < ·) ∧
      (acceptedBids (history exec s is)).IsChain fun a b => a + minIncrement ≤ b) ∧
    (∃ now, (run s is).deadline = some now ∧ deadline ≤ now ∧ now ≤ maxDeadline) ∧
    (∀ e ∈ history exec s is, ∃ before after, e.before.deadline = some before ∧
      e.after.deadline = some after ∧ before ≤ after ∧ after ≤ maxDeadline ∧
      (bidAmount e.invocation.call ≠ none →
        min (saturatingAddU32 e.invocation.sequence extensionWindow) maxDeadline ≤ after)) ∧
    ∀ (i : Invocation house) (bidder : Address) (totalBid : ℤ) (t u : State),
      exec { i with call := .bid bidder totalBid } (run s is) = .ok t →
      exec { i with call := .bidWithCredit bidder totalBid } (run s is) = .ok u →
      t.highestBid = u.highestBid ∧ t.highestBidder = u.highestBidder ∧ t.deadline = u.deadline ∧
        ∀ (ledger : Ledger) (holder : Address), holder ≠ house →
          pendingOf t holder + replay ledger t.transfers token holder =
            pendingOf u holder + replay ledger u.transfers token holder := by
  have hopen : 0 < minIncrement ∧
      Open seller token startPrice minIncrement deadline extensionWindow maxDeadline [] s := by
    unfold exec at hstart
    rw [hcall] at hstart
    exact start_open hstart
  obtain ⟨hincrement, hs⟩ := hopen
  let I : List (Entry State (Invocation house)) → State → Prop := fun past s =>
    Open seller token startPrice minIncrement deadline extensionWindow maxDeadline
      (acceptedBids past) s
  have hstep : ∀ past s i t, I past s → True → exec i s = .ok t → I (past ++ [⟨s, i, t⟩]) t :=
    fun _ _ _ _ hs _ hok => exec_open hincrement hs hok
  have hrun : I (history exec s is) (run s is) :=
    history_invariant_along hstep hs (along_true exec s is)
  refine ⟨⟨hrun.reached, ?_, hrun.steps⟩, hrun.deadline_mem, fun e he => ?_,
    fun i bidder totalBid t u ht hu => ?_⟩
  · have hrising : (acceptedBids (history exec s is)).IsChain (· < ·) :=
      hrun.steps.imp fun a b hab => by omega
    exact List.isChain_iff_pairwise.mp hrising
  · obtain ⟨past, later, hsplit⟩ := List.append_of_mem he
    obtain ⟨hbefore, _, hok⟩ := history_split hstep hs (along_true exec s is) hsplit
    obtain ⟨before, hdeadline, _, _⟩ := hbefore.deadline_mem
    obtain ⟨after, hnext, _, hcap⟩ := (exec_open hincrement hbefore hok).deadline_mem
    obtain ⟨hle, hwindow⟩ := exec_deadline hbefore hok hdeadline hnext
    exact ⟨before, after, hdeadline, hnext, hle, hcap, hwindow⟩
  · exact hrun.credit i.outside ht hu

/-- The bids of `demoBids` on an auction with a window of twenty ledgers, in its last one. -/
def demoLateBids : List (Invocation demoHouse) :=
  [demoCall 2 (.bid demoAlice 100), demoCall 100 (.bid demoBob 200)]

def demoWindow : Invocation demoHouse :=
  demoCall 1 (.start demoSeller demoToken 50 10 100 none 20 110 0 0 none none none)

/-- Bob bids in the last ledger: the deadline goes up to the cap. -/
theorem bidding_rules_demo :
    acceptedBids (history exec (run State.empty [demoWindow]) demoLateBids) = [100, 200] ∧
      (acceptedBids (history exec (run State.empty [demoWindow]) demoLateBids)).Pairwise (· < ·) ∧
      ∃ now, (run (run State.empty [demoWindow]) demoLateBids).deadline = some now ∧ 100 ≤ now ∧
        now ≤ 110 := by
  obtain ⟨⟨_, hrising, _⟩, hdeadline, _⟩ := bidding_rules demoHouse demoSeller demoToken 50 10 100 none
    20 110 0 0 none none demoWindow (run State.empty [demoWindow]) rfl rfl demoLateBids
  exact ⟨rfl, hrising, hdeadline⟩

end SorobanKit.Auction
