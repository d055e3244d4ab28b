import SorobanKit.HostBalances
import SorobanKit.HostInteger
import SorobanKit.HostInvocation
import SorobanKit.HostRuns

set_option autoImplicit false

/-!
# The NFT collection

Batch minting, transfers, approvals and burning over persistent storage. The source holds
two versions of most entry points run into each other; these are the ones that keep the
enumeration of an owner's tokens. Events, TTL bumps, queries, royalties of single tokens and
the explicit `mint`, whose two versions cannot be told apart, are left out.
-/
namespace SorobanKit.Nft
open HostBalances HostInteger HostInvocation

inductive NftError where
  | notAuthorized
  | alreadyInitialized
  | notInitialized
  | tokenNotFound
  | tokenAlreadyMinted
  | notOwner
  | notApproved
  | supplyCapReached
  | invalidTokenId
  | invalidRoyalty
  | royaltyRecipientMissing
  | nonTransferable
  deriving DecidableEq, Repr

structure State where
  admin : Option Address := none
  name : Option String := none
  symbol : Option String := none
  totalSupply : Option ℕ := none
  maxSupply : Option ℕ := none
  royaltyBps : Option ℕ := none
  royaltyRecipient : Option Address := none
  nextTokenId : Option ℕ := none
  soulbound : Option Bool := none
  isInitialized : Bool := false
  owner : Finmap (fun _ : ℕ => Address) := ∅
  uri : Finmap (fun _ : ℕ => String) := ∅
  approval : Finmap (fun _ : ℕ => Address) := ∅
  balance : Finmap (fun _ : Address => ℕ) := ∅
  ownerTokens : Finmap (fun _ : Address × ℕ => ℕ) := ∅
  ownedIndex : Finmap (fun _ : ℕ => ℕ) := ∅

def State.empty : State := {}

def ownerBalance (s : State) (owner : Address) : ℕ := (s.balance.lookup owner).getD 0

def enumerableAdd (owner : Address) (tokenId : ℕ) (s : State) : State :=
  let balance := ownerBalance s owner
  { s with
    ownerTokens := s.ownerTokens.insert (owner, balance) tokenId
    ownedIndex := s.ownedIndex.insert tokenId balance
    balance := s.balance.insert owner (saturatingAddU32 balance 1) }

/-- `if index != last_index { .. }`: the last token takes the place of the removed one. -/
def swapLast (owner : Address) (index lastIndex : ℕ) (s : State) : State :=
  if index = lastIndex then s
  else
    let lastToken := (s.ownerTokens.lookup (owner, lastIndex)).getD 0
    { s with
      ownerTokens := s.ownerTokens.insert (owner, index) lastToken
      ownedIndex := s.ownedIndex.insert lastToken index }

def enumerableRemove (owner : Address) (tokenId : ℕ) (s : State) : State :=
  let balance := ownerBalance s owner
  if balance = 0 then s
  else
    let index := (s.ownedIndex.lookup tokenId).getD 0
    let lastIndex := saturatingSubU32 balance 1
    let s := swapLast owner index lastIndex s
    { s with
      ownerTokens := s.ownerTokens.erase (owner, lastIndex)
      ownedIndex := s.ownedIndex.erase tokenId
      balance := s.balance.insert owner lastIndex }

section Entrypoints
variable (ctx : Context)

def requireInitialized (s : State) : Result NftError Unit :=
  rejectIf (s.isInitialized = false) .notInitialized

def requireTransferable (s : State) : Result NftError Unit :=
  rejectIf (s.soulbound.getD false) .nonTransferable

/-- `max_supply` of 0 means no cap. -/
def initializeNft (admin : Address) (name symbol : String) (maxSupply : ℕ) (royaltyBps : Option ℕ)
    (royaltyRecipient : Option Address) (soulbound : Bool) (s : State) : Result NftError State := do
  rejectIf s.isInitialized .alreadyInitialized
  rejectIf (∃ bps ∈ royaltyBps, 10000 < bps) .invalidRoyalty
  rejectIf (∃ bps ∈ royaltyBps, 0 < bps ∧ royaltyRecipient = none) .royaltyRecipientMissing
  requireAuth ctx admin
  return { s with
    admin := some admin, name := some name, symbol := some symbol, totalSupply := some 0,
    maxSupply := if 0 < maxSupply then some maxSupply else s.maxSupply,
    royaltyBps := royaltyBps.or s.royaltyBps,
    royaltyRecipient := royaltyRecipient.or s.royaltyRecipient,
    nextTokenId := some 1, soulbound := some soulbound, isInitialized := true }

/-- `while has(Owner(next)) { next = next.checked_add(1)? }`: `steps` more ids exist. -/
def skipTaken (s : State) : ℕ → ℕ → Result NftError ℕ
  | 0, _ => .error (.error .supplyCapReached)
  | steps + 1, next =>
    if next ∈ s.owner then do
      let next ← okOr (checkedAddU32 next 1) .supplyCapReached
      skipTaken s steps next
    else return next

/-- The variables of the loop of `mint_batch`. -/
structure Minting where
  state : State
  next : ℕ
  newTotal : ℕ
  minted : List ℕ

def mintNext (target : Address) (m : Minting) (uri : String) : Result NftError Minting := do
  let tokenId ← skipTaken m.state (u32Max + 1 - m.next) m.next
  let next ← okOr (checkedAddU32 tokenId 1) .supplyCapReached
  let newTotal ← okOr (checkedAddU32 m.newTotal 1) .supplyCapReached
  let s := { m.state with
    owner := m.state.owner.insert tokenId target, uri := m.state.uri.insert tokenId uri }
  return ⟨enumerableAdd target tokenId s, next, newTotal, m.minted ++ [tokenId]⟩

/-- `if let Some(max) = .. { if total.saturating_add(count) > max { .. } }` -/
def requireSupply (count total : ℕ) (s : State) : Result NftError Unit :=
  rejectIf (∃ max ∈ s.maxSupply, max < saturatingAddU32 total count) .supplyCapReached

def mintAll (target : Address) (tokenUris : List String) (s : State) :
    Result NftError (List ℕ × State) := do
  let total := s.totalSupply.getD 0
  requireSupply tokenUris.length total s
  let m ← tokenUris.foldlM (mintNext target) ⟨s, s.nextTokenId.getD 1, total, []⟩
  return (m.minted, { m.state with totalSupply := some m.newTotal, nextTokenId := some m.next })

def mintBatch (target : Address) (tokenUris : List String) (s : State) :
    Result NftError (List ℕ × State) := do
  requireInitialized s
  let admin ← okOr s.admin .notInitialized
  requireAuth ctx admin
  if tokenUris.length = 0 then return ([], s) else mintAll target tokenUris s

/-- One token changes hands. -/
def reassign (source target : Address) (tokenId : ℕ) (s : State) : State :=
  let s := enumerableRemove source tokenId s
  let s := { s with owner := s.owner.insert tokenId target }
  let s := enumerableAdd target tokenId s
  { s with approval := s.approval.erase tokenId }

def requireOwner (source : Address) (tokenId : ℕ) (s : State) : Result NftError Unit := do
  let owner ← okOr (s.owner.lookup tokenId) .tokenNotFound
  rejectIf (owner ≠ source) .notOwner

/-- All tokens are validated before the first one moves. -/
def transferBatch (source target : Address) (tokenIds : List ℕ) (s : State) :
    Result NftError State := do
  requireInitialized s
  requireTransferable s
  requireAuth ctx source
  tokenIds.forM (fun tokenId => requireOwner source tokenId s)
  return tokenIds.foldl (fun s tokenId => reassign source target tokenId s) s

def transferFrom (spender source target : Address) (tokenId : ℕ) (s : State) :
    Result NftError State := do
  requireInitialized s
  requireTransferable s
  requireAuth ctx spender
  requireOwner source tokenId s
  rejectIf (s.approval.lookup tokenId ≠ some spender) .notApproved
  return reassign source target tokenId s

def burn (source : Address) (tokenId : ℕ) (s : State) : Result NftError State := do
  requireInitialized s
  requireAuth ctx source
  requireOwner source tokenId s
  let s := enumerableRemove source tokenId s
  let total := s.totalSupply.getD 1
  return { s with
    owner := s.owner.erase tokenId, uri := s.uri.erase tokenId,
    approval := s.approval.erase tokenId, totalSupply := some (saturatingSubU32 total 1) }

def approve (tokenId : ℕ) (spender : Address) (s : State) : Result NftError State := do
  requireInitialized s
  let owner ← okOr (s.owner.lookup tokenId) .tokenNotFound
  requireAuth ctx owner
  return { s with approval := s.approval.insert tokenId spender }

end Entrypoints

inductive Call where
  | initializeNft (admin : Address) (name symbol : String) (maxSupply : ℕ) (royaltyBps : Option ℕ)
      (royaltyRecipient : Option Address) (soulbound : Bool)
  | mintBatch (target : Address) (tokenUris : List String)
  | transferBatch (source target : Address) (tokenIds : List ℕ)
  | transferFrom (spender source target : Address) (tokenId : ℕ)
  | burn (source : Address) (tokenId : ℕ)
  | approve (tokenId : ℕ) (spender : Address)

structure Invocation extends Context where
  call : Call

def exec (i : Invocation) (s : State) : Result NftError State :=
  let ctx := i.toContext
  match i.call with
  | .initializeNft admin name symbol maxSupply royaltyBps royaltyRecipient soulbound =>
    initializeNft ctx admin name symbol maxSupply royaltyBps royaltyRecipient soulbound s
  | .mintBatch target tokenUris => do
    let (_, s) ← mintBatch ctx target tokenUris s
    return s
  | .transferBatch source target tokenIds => transferBatch ctx source target tokenIds s
  | .transferFrom spender source target tokenId => transferFrom ctx spender source target tokenId s
  | .burn source tokenId => burn ctx source tokenId s
  | .approve tokenId spender => approve ctx tokenId spender s

def run (s : State) (is : List Invocation) : State := HostRuns.run exec s is

end SorobanKit.Nft
