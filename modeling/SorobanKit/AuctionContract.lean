import SorobanKit.CommonMath
import SorobanKit.HostBalances
import SorobanKit.HostInvocation
import SorobanKit.HostRuns
import SorobanKit.HostTransfers

set_option autoImplicit false

/-!
# The auction house

English auctions with pull refunds, credit, a reserve, anti-sniping and a buy-it-now price,
and Dutch auctions. `transfers` is the log of the token transfers that returned. Events, TTL
bumps and queries are left out, and so is `cancel`, whose text in the source is two versions
run into each other.
-/
namespace SorobanKit.Auction
open CommonMath HostBalances HostInteger HostInvocation HostTransfers

inductive AuctionError where
  | alreadyInitialized
  | notInitialized
  | auctionEnded
  | auctionNotEnded
  | bidTooLow
  | alreadyEnded
  | notAuthorized
  | invalidAmount
  | invalidDeadline
  | nothingToWithdraw
  | bidAlreadyPlaced
  | overflow
  | wrongMode
  | auctionNotStarted
  | invalidNftParams
  deriving DecidableEq, Repr

structure DutchConfig where
  startPrice : ℤ
  floorPrice : ℤ
  startLedger : ℕ
  durationLedgers : ℕ
  deriving DecidableEq, Repr

/-- Why the contract moves tokens. -/
inductive Purpose where
  | bid
  | proceeds
  | royalty
  | refund
  | sale
  deriving DecidableEq, Repr

structure State where
  seller : Option Address := none
  token : Option Address := none
  startPrice : Option ℤ := none
  minIncrement : Option ℤ := none
  deadline : Option ℕ := none
  highestBidder : Option Address := none
  highestBid : Option ℤ := none
  settled : Option Bool := none
  reservePrice : Option ℤ := none
  pending : Balances Address := ∅
  extensionWindow : Option ℕ := none
  maxDeadline : Option ℕ := none
  cancelled : Option Bool := none
  startLedger : Option ℕ := none
  cancellationGraceLedgers : Option ℕ := none
  cancellationFee : Option ℤ := none
  nftContract : Option Address := none
  nftTokenId : Option ℕ := none
  dutchConfig : Option DutchConfig := none
  sellerPending : Balances Address := ∅
  buyItNowPrice : Option ℤ := none
  transfers : List (Transfer Purpose) := []

def State.empty : State := {}

structure NftTransfer where
  contract : Address
  source : Address
  target : Address
  tokenId : ℕ
  deriving DecidableEq, Repr

/-- One invocation sees the ledger, its authorizations and what token and NFT contracts
    answer. -/
structure Env extends Context where
  tokens : TokenReplies Purpose
  nftAccepts : NftTransfer → Bool
  royaltyInfo : Address → ℕ → ℤ → Option (Address × ℤ)

section Entrypoints
variable (house : Address) (env : Env)

def getInstance {α : Type} (x : Option α) : Result AuctionError α := okOr x .notInitialized

def callTransfer (x : Transfer Purpose) (s : State) : Result AuctionError State :=
  recordTransfer env.tokens s.transfers x fun log => { s with transfers := log }

/-- `try_transfer(..).is_ok_and(|r| r.is_ok())` -/
def tryTransfer (x : Transfer Purpose) (s : State) : Bool × State :=
  if env.tokens.accepts s.transfers x then (true, { s with transfers := s.transfers ++ [x] })
  else (false, s)

def pendingOf (s : State) (bidder : Address) : ℤ := entry s.pending bidder

/-- An entry of zero is removed. -/
def setPending (bidder : Address) (amount : ℤ) (s : State) : State :=
  if amount = 0 then { s with pending := s.pending.erase bidder }
  else { s with pending := s.pending.insert bidder amount }

def validateNftParams (nftContract : Option Address) (tokenId : Option ℕ) :
    Result AuctionError Unit :=
  rejectIf (nftContract.isSome ≠ tokenId.isSome) .invalidNftParams

def escrowNft (seller : Address) (nftContract : Option Address) (tokenId : Option ℕ) (s : State) :
    Result AuctionError State :=
  match nftContract, tokenId with
  | some contract, some id => do
    trapUnless (env.nftAccepts ⟨contract, seller, house, id⟩)
    return { s with nftContract := some contract, nftTokenId := some id }
  | _, _ => return s

def releaseNft (target : Address) (s : State) : Result AuctionError Unit :=
  match s.nftContract, s.nftTokenId with
  | some contract, some id => trapUnless (env.nftAccepts ⟨contract, house, target, id⟩)
  | _, _ => return ()

/-- The bid starts one below the price, so that the first one must reach the price. -/
def start (seller token : Address) (startPrice minIncrement : ℤ) (deadline : ℕ)
    (reservePrice : Option ℤ) (extensionWindow maxDeadline cancellationGraceLedgers : ℕ)
    (cancellationFee : ℤ) (buyItNowPrice : Option ℤ) (nftContract : Option Address)
    (tokenId : Option ℕ) (s : State) : Result AuctionError State := do
  rejectIf s.seller.isSome .alreadyInitialized
  rejectIf (startPrice ≤ 0 ∨ minIncrement ≤ 0 ∨ cancellationFee < 0) .invalidAmount
  rejectIf (deadline ≤ env.sequence ∨ maxDeadline < deadline) .invalidDeadline
  validateNftParams nftContract tokenId
  let initialHighest ← okOr (checkedSub startPrice 1) .overflow
  requireAuth env.toContext seller
  escrowNft house env seller nftContract tokenId { s with
    seller := some seller, token := some token, startPrice := some startPrice,
    minIncrement := some minIncrement, deadline := some deadline,
    extensionWindow := some extensionWindow, maxDeadline := some maxDeadline,
    highestBid := some initialHighest, settled := some false, cancelled := some false,
    startLedger := some env.sequence, cancellationGraceLedgers := some cancellationGraceLedgers,
    cancellationFee := some cancellationFee, reservePrice := reservePrice.or s.reservePrice,
    buyItNowPrice := buyItNowPrice.or s.buyItNowPrice }

def startDutch (seller token : Address) (startPrice floorPrice : ℤ)
    (startLedger durationLedgers : ℕ) (nftContract : Option Address) (tokenId : Option ℕ)
    (s : State) : Result AuctionError State := do
  rejectIf s.seller.isSome .alreadyInitialized
  rejectIf (floorPrice < 0 ∨ startPrice ≤ floorPrice) .invalidAmount
  rejectIf (durationLedgers = 0 ∨ startLedger < env.sequence) .invalidDeadline
  let endLedger ← okOr (checkedAddU32 startLedger durationLedgers) .overflow
  validateNftParams nftContract tokenId
  requireAuth env.toContext seller
  escrowNft house env seller nftContract tokenId { s with
    seller := some seller, token := some token, startPrice := some startPrice,
    minIncrement := some 0, deadline := some endLedger, highestBid := some 0,
    settled := some false, cancelled := some false,
    dutchConfig := some ⟨startPrice, floorPrice, startLedger, durationLedgers⟩ }

/-- The first bid reaches the start price, a later one the highest bid and the increment. -/
def minRequired (highestBid minIncrement startPrice : ℤ) : Result AuctionError ℤ :=
  if highestBid < startPrice then return startPrice
  else okOr (checkedAdd highestBid minIncrement) .overflow

/-- The previous highest bid becomes a refund of its bidder. -/
def queueRefund (highestBid : ℤ) (s : State) : Result AuctionError State :=
  match s.highestBidder with
  | some prev => do
    let newPending ← okOr (checkedAdd (pendingOf s prev) highestBid) .overflow
    return setPending prev newPending s
  | none => return s

/-- What is left to transfer once the refund of the bidder is used up. -/
def applyCredit (bidder : Address) (amount : ℤ) (s : State) : Result AuctionError (ℤ × State) := do
  let credit := pendingOf s bidder
  let creditUsed := min credit amount
  let requiredTransfer ← okOr (checkedSub amount creditUsed) .overflow
  let remaining ← okOr (checkedSub credit creditUsed) .overflow
  return (requiredTransfer, setPending bidder remaining s)

/-- What the bidder has to transfer for a bid. -/
def requiredTransfer (bidder : Address) (amount : ℤ) (useCredit : Bool) (s : State) :
    Result AuctionError (ℤ × State) :=
  if useCredit then applyCredit bidder amount s else return (amount, s)

/-- `if required_transfer > 0 { transfer(bidder, contract, required_transfer) }` -/
def takeBid (token bidder : Address) (requiredTransfer : ℤ) (s : State) :
    Result AuctionError State :=
  if 0 < requiredTransfer then
    callTransfer env ⟨.bid, token, bidder, house, requiredTransfer⟩ s
  else return s

/-- A bid at the buy-it-now price is settled at once. -/
def buyItNow (bidder : Address) (amount requiredTransfer : ℤ) (s : State) :
    Result AuctionError State := do
  let s := { s with settled := some true }
  let seller ← getInstance s.seller
  let token ← getInstance s.token
  let s ← takeBid house env token bidder requiredTransfer s
  let s ← callTransfer env ⟨.proceeds, token, house, seller, amount⟩ s
  releaseNft house env bidder s
  return s

/-- Anti-sniping. -/
def extendDeadline (deadline : ℕ) (s : State) : State :=
  let extensionWindow := s.extensionWindow.getD 0
  if 0 < extensionWindow ∧ saturatingSubU32 deadline env.sequence ≤ extensionWindow then
    let newDeadline := min (saturatingAddU32 deadline extensionWindow) (s.maxDeadline.getD u32Max)
    if deadline < newDeadline then { s with deadline := some newDeadline } else s
  else s

def placeBid (bidder : Address) (amount : ℤ) (useCredit : Bool) (s : State) :
    Result AuctionError State := do
  rejectIf (amount ≤ 0) .invalidAmount
  rejectIf s.dutchConfig.isSome .wrongMode
  rejectIf (s.cancelled.getD false) .auctionEnded
  -- `settled` is not looked at
  let deadline ← getInstance s.deadline
  rejectIf (deadline < env.sequence) .auctionEnded
  let highestBid ← getInstance s.highestBid
  let minIncrement ← getInstance s.minIncrement
  let startPrice ← getInstance s.startPrice
  let least ← minRequired highestBid minIncrement startPrice
  rejectIf (amount < least) .bidTooLow
  requireAuth env.toContext bidder
  let s ← queueRefund highestBid s
  let (transferred, s) ← requiredTransfer bidder amount useCredit s
  let s := { s with highestBidder := some bidder, highestBid := some amount }
  if ∃ price ∈ s.buyItNowPrice, price ≤ amount then
    buyItNow house env bidder amount transferred s
  else do
    let s := extendDeadline env deadline s
    if 0 < transferred then do
      let token ← getInstance s.token
      takeBid house env token bidder transferred s
    else return s

def bid (bidder : Address) (amount : ℤ) (s : State) : Result AuctionError State :=
  placeBid house env bidder amount false s

def bidWithCredit (bidder : Address) (totalBid : ℤ) (s : State) : Result AuctionError State :=
  placeBid house env bidder totalBid true s

/-- The seller's proceeds, after a royalty that could be paid. -/
def payRoyalty (token : Address) (highestBid : ℤ) (s : State) : Result AuctionError (ℤ × State) :=
  match s.nftContract, s.nftTokenId with
  | some contract, some id =>
    match env.royaltyInfo contract id highestBid with
    | some (recipient, amount) =>
      if 0 < amount ∧ amount < highestBid then
        match tryTransfer env ⟨.royalty, token, house, recipient, amount⟩ s with
        | (true, s) => do
          let proceeds ← okOr (checkedSub highestBid amount) .overflow
          return (proceeds, s)
        | (false, s) => return (highestBid, s)
      else return (highestBid, s)
    | none => return (highestBid, s)
  | _, _ => return (highestBid, s)

/-- Proceeds that the seller cannot receive are kept for them. -/
def paySeller (token seller : Address) (proceeds : ℤ) (s : State) : Result AuctionError State :=
  match tryTransfer env ⟨.proceeds, token, house, seller, proceeds⟩ s with
  | (true, s) => return s
  | (false, s) => do
    let newTotal ← okOr (checkedAdd (entry s.sellerPending seller) proceeds) .overflow
    return { s with sellerPending := s.sellerPending.insert seller newTotal }

def endAuction (s : State) : Result AuctionError State := do
  let seller ← getInstance s.seller
  rejectIf s.dutchConfig.isSome .wrongMode
  rejectIf (s.cancelled.getD false) .alreadyEnded
  let deadline ← getInstance s.deadline
  rejectIf (env.sequence ≤ deadline) .auctionNotEnded
  let settled ← getInstance s.settled
  rejectIf settled .alreadyEnded
  let s := { s with settled := some true }
  let startPrice ← getInstance s.startPrice
  let highestBid ← getInstance s.highestBid
  match s.highestBidder.filter (fun _ => startPrice ≤ highestBid) with
  | none => do
    releaseNft house env seller s
    return s
  | some winner => do
    let token ← getInstance s.token
    if ∃ reserve ∈ s.reservePrice, highestBid < reserve then do
      let s ← callTransfer env ⟨.refund, token, house, winner, highestBid⟩ s
      releaseNft house env seller s
      return s
    else do
      let (proceeds, s) ← payRoyalty house env token highestBid s
      let s ← paySeller house env token seller proceeds s
      releaseNft house env winner s
      return s

def withdraw (bidder : Address) (s : State) : Result AuctionError State := do
  requireAuth env.toContext bidder
  let pending := pendingOf s bidder
  rejectIf (pending ≤ 0) .nothingToWithdraw
  let s := { s with pending := s.pending.erase bidder }
  let token ← getInstance s.token
  callTransfer env ⟨.refund, token, house, bidder, pending⟩ s

def withdrawSellerProceeds (seller : Address) (s : State) : Result AuctionError State := do
  requireAuth env.toContext seller
  let pending := entry s.sellerPending seller
  rejectIf (pending ≤ 0) .nothingToWithdraw
  let s := { s with sellerPending := s.sellerPending.erase seller }
  let token ← getInstance s.token
  callTransfer env ⟨.proceeds, token, house, seller, pending⟩ s

def cancelOne (seller : Address) (s : State) : Result AuctionError State := do
  let s := { s with cancelled := some true }
  releaseNft house env seller s
  return s

/-- The ids are counted and not read: there is one auction. -/
def cancelAuctionsBatch (seller : Address) (auctionIds : List ℕ) (s : State) :
    Result AuctionError State := do
  requireAuth env.toContext seller
  let storedSeller ← getInstance s.seller
  rejectIf (seller ≠ storedSeller) .notAuthorized
  auctionIds.forM fun _ => do
    rejectIf (s.settled.getD false ∨ s.cancelled.getD false) .alreadyEnded
    let highestBid ← getInstance s.highestBid
    let startPrice ← getInstance s.startPrice
    rejectIf (s.highestBidder.isSome ∨ startPrice ≤ highestBid) .bidAlreadyPlaced
  auctionIds.foldlM (fun s _ => cancelOne house env seller s) s

def priceAt (cfg : DutchConfig) (ledger : ℕ) : Result AuctionError ℤ :=
  let elapsed := saturatingSubU32 ledger cfg.startLedger
  if cfg.durationLedgers ≤ elapsed then return cfg.floorPrice
  else do
    let spread ← okOr (checkedSub cfg.startPrice cfg.floorPrice) .overflow
    let decay ← match mulDiv spread elapsed cfg.durationLedgers with
      | .ok decay => pure decay
      | .error _ => .error (.error .overflow)
    let price ← okOr (checkedSub cfg.startPrice decay) .overflow
    return max price cfg.floorPrice

/-- The sale goes from the buyer to the seller directly. -/
def paySale (buyer seller : Address) (price : ℤ) (s : State) : Result AuctionError State :=
  if 0 < price then do
    let token ← getInstance s.token
    callTransfer env ⟨.sale, token, buyer, seller, price⟩ s
  else return s

def buy (buyer : Address) (maxPrice : ℤ) (s : State) : Result AuctionError State := do
  let seller ← getInstance s.seller
  let cfg ← okOr s.dutchConfig .wrongMode
  rejectIf (s.settled.getD false ∨ s.cancelled.getD false) .auctionEnded
  rejectIf (env.sequence < cfg.startLedger) .auctionNotStarted
  let price ← priceAt cfg env.sequence
  rejectIf (maxPrice < price) .bidTooLow
  requireAuth env.toContext buyer
  let s := { s with settled := some true, highestBidder := some buyer, highestBid := some price }
  let s ← paySale env buyer seller price s
  releaseNft house env buyer s
  return s

end Entrypoints

inductive Call where
  | start (seller token : Address) (startPrice minIncrement : ℤ) (deadline : ℕ)
      (reservePrice : Option ℤ) (extensionWindow maxDeadline cancellationGraceLedgers : ℕ)
      (cancellationFee : ℤ) (buyItNowPrice : Option ℤ) (nftContract : Option Address)
      (tokenId : Option ℕ)
  | startDutch (seller token : Address) (startPrice floorPrice : ℤ)
      (startLedger durationLedgers : ℕ) (nftContract : Option Address) (tokenId : Option ℕ)
  | buy (buyer : Address) (maxPrice : ℤ)
  | bid (bidder : Address) (amount : ℤ)
  | bidWithCredit (bidder : Address) (totalBid : ℤ)
  | endAuction
  | withdraw (bidder : Address)
  | withdrawSellerProceeds (seller : Address)
  | cancelAuctionsBatch (seller : Address) (auctionIds : List ℕ)

/-- A call on the contract at `house`, which signs nothing itself. -/
structure Invocation (house : Address) extends Env where
  call : Call
  outside : house ∉ auths

def exec {house : Address} (i : Invocation house) (s : State) : Result AuctionError State :=
  let env := i.toEnv
  match i.call with
  | .start seller token startPrice minIncrement deadline reservePrice extensionWindow maxDeadline
      cancellationGraceLedgers cancellationFee buyItNowPrice nftContract tokenId =>
    start house env seller token startPrice minIncrement deadline reservePrice extensionWindow
      maxDeadline cancellationGraceLedgers cancellationFee buyItNowPrice nftContract tokenId s
  | .startDutch seller token startPrice floorPrice startLedger durationLedgers nftContract tokenId =>
    startDutch house env seller token startPrice floorPrice startLedger durationLedgers nftContract
      tokenId s
  | .buy buyer maxPrice => buy house env buyer maxPrice s
  | .bid bidder amount => bid house env bidder amount s
  | .bidWithCredit bidder totalBid => bidWithCredit house env bidder totalBid s
  | .endAuction => endAuction house env s
  | .withdraw bidder => withdraw house env bidder s
  | .withdrawSellerProceeds seller => withdrawSellerProceeds house env seller s
  | .cancelAuctionsBatch seller auctionIds => cancelAuctionsBatch house env seller auctionIds s

def run {house : Address} (s : State) (is : List (Invocation house)) : State := HostRuns.run exec s is

end SorobanKit.Auction
