import SorobanKit.SwapMoves

set_option autoImplicit false

/-!
# Basket swaps

A maker offers a list of legs for a list of legs. Whoever accepts pays every demanded leg to the
maker and gets every offered leg out of the allowances of the maker, in one call. Baskets live next
to the swaps of the contract and are numbered on their own.
-/
namespace SorobanKit.Swap
open HostBalances HostInteger HostInvocation HostRuns HostTransfers

structure BasketLeg where
  token : Address
  amount : ℤ
  deriving DecidableEq, Repr

structure BasketSwapInfo where
  id : ℕ
  partyA : Address
  offers : List BasketLeg
  demands : List BasketLeg
  expiresAt : ℕ
  state : SwapState
  deriving DecidableEq, Repr

inductive BasketPurpose where
  | demand (swapId : ℕ)
  | offer (swapId : ℕ)
  deriving DecidableEq, Repr

/-- The contract with its baskets. `settled` is the log of the transfers that baskets made. -/
structure Desk where
  swaps : State := {}
  basketSwapCount : Option ℕ := none
  baskets : Finmap (fun _ : ℕ => BasketSwapInfo) := ∅
  settled : List (Transfer BasketPurpose) := []

/-- The errors of the entry points of baskets, and those they share with swaps. -/
inductive BasketError where
  | swap (error : SwapError)
  | basketSwapNotFound
  | storageError
  deriving DecidableEq, Repr

structure BasketEnv extends Context where
  tokens : TokenReplies BasketPurpose

section Entrypoints
variable (env : BasketEnv)

def ensureValidLeg (leg : BasketLeg) : Result BasketError Unit :=
  rejectIf (leg.amount ≤ 0) (.swap .invalidAmount)

def putBasket (swap : BasketSwapInfo) (swapId : ℕ) (d : Desk) : Desk :=
  { d with baskets := d.baskets.insert swapId swap }

def proposeBasketSwap (partyA : Address) (offers demands : List BasketLeg) (expiresAt : ℕ)
    (d : Desk) : Result BasketError (ℕ × Desk) := do
  rejectIf d.swaps.initialized.isNone (.swap .notInitialized)
  requireAuth env.toContext partyA
  rejectIf (expiresAt ≤ env.sequence) (.swap .invalidDeadline)
  rejectIf (offers = [] ∨ demands = []) (.swap .invalidAmount)
  offers.forM ensureValidLeg
  demands.forM ensureValidLeg
  let swapId := d.basketSwapCount.getD 0
  let nextId ← okOr (checkedAddU32 swapId 1) .storageError
  let swap : BasketSwapInfo := {
    id := swapId, partyA, offers, demands, expiresAt, state := .pending }
  return (swapId, { putBasket swap swapId d with basketSwapCount := some nextId })

def payLeg (purpose : BasketPurpose) (source target : Address) (d : Desk) (leg : BasketLeg) :
    Result BasketError Desk := do
  trapUnless (env.tokens.accepts d.settled ⟨purpose, leg.token, source, target, leg.amount⟩)
  return { d with
    settled := d.settled ++ [⟨purpose, leg.token, source, target, leg.amount⟩] }

def requirePendingBasket (state : SwapState) : Result BasketError Unit :=
  rejectIf (state ≠ .pending) (.swap (mapStateErr state))

def acceptBasketSwap (swapId : ℕ) (partyB : Address) (d : Desk) : Result BasketError (ℕ × Desk) := do
  requireAuth env.toContext partyB
  let swap ← okOr (d.baskets.lookup swapId) .basketSwapNotFound
  requirePendingBasket swap.state
  rejectIf (swap.expiresAt < env.sequence) (.swap .deadlineExpired)
  let d ← swap.demands.foldlM (payLeg env (.demand swapId) partyB swap.partyA) d
  let d ← swap.offers.foldlM (payLeg env (.offer swapId) swap.partyA partyB) d
  return (swapId, putBasket { swap with state := .executed } swapId d)

end Entrypoints

def getBasketSwap (swapId : ℕ) (d : Desk) : Result BasketError BasketSwapInfo :=
  okOr (d.baskets.lookup swapId) .basketSwapNotFound

inductive DeskCall where
  | swap (i : Invocation)
  | proposeBasketSwap (env : BasketEnv) (partyA : Address) (offers demands : List BasketLeg)
      (expiresAt : ℕ)
  | acceptBasketSwap (env : BasketEnv) (swapId : ℕ) (partyB : Address)

/-- The initialization resets the counter of baskets with that of swaps. -/
def countAfter (call : Call) (count : Option ℕ) : Option ℕ :=
  match call with
  | .initializeSwaps _ _ _ => some 0
  | _ => count

section Runs
variable (sha256 : Bytes32 → Bytes32) (house : Address)

def deskExec (x : DeskCall) (d : Desk) : Except Unit Desk :=
  match x with
  | .swap i =>
    match exec sha256 house i d.swaps with
    | .ok swaps => .ok { d with swaps, basketSwapCount := countAfter i.call d.basketSwapCount }
    | .error _ => .error ()
  | .proposeBasketSwap env partyA offers demands expiresAt =>
    match proposeBasketSwap env partyA offers demands expiresAt d with
    | .ok (_, d) => .ok d
    | .error _ => .error ()
  | .acceptBasketSwap env swapId partyB =>
    match acceptBasketSwap env swapId partyB d with
    | .ok (_, d) => .ok d
    | .error _ => .error ()

def deskRun (xs : List DeskCall) : Desk := HostRuns.run (deskExec sha256 house) {} xs

def deskHistory (xs : List DeskCall) : List (Entry Desk DeskCall) :=
  HostRuns.history (deskExec sha256 house) {} xs

end Runs

/-- A basket and the one who accepted it. -/
structure Deal where
  swapId : ℕ
  partyB : Address
  swap : BasketSwapInfo

def legTransfer (purpose : BasketPurpose) (source target : Address) (leg : BasketLeg) :
    Transfer BasketPurpose :=
  ⟨purpose, leg.token, source, target, leg.amount⟩

/-- Every demanded leg to the maker, then every offered leg to the taker. -/
def Deal.settlement (x : Deal) : List (Transfer BasketPurpose) :=
  x.swap.demands.map (legTransfer (.demand x.swapId) x.partyB x.swap.partyA) ++
    x.swap.offers.map (legTransfer (.offer x.swapId) x.swap.partyA x.partyB)

def dealOf (e : Entry Desk DeskCall) : Option Deal :=
  match e.invocation with
  | .acceptBasketSwap _ swapId partyB =>
    (e.before.baskets.lookup swapId).map fun swap => ⟨swapId, partyB, swap⟩
  | _ => none

/-- What was accepted in a history, in order. -/
def deals (past : List (Entry Desk DeskCall)) : List Deal := past.filterMap dealOf

/-- A call that made a basket as it is stored, signed by the maker before the deadline. -/
structure Offers (e : Entry Desk DeskCall) (swap : BasketSwapInfo) : Prop where
  call : ∃ env, e.invocation =
      .proposeBasketSwap env swap.partyA swap.offers swap.demands swap.expiresAt ∧
    swap.partyA ∈ env.auths ∧ env.sequence < swap.expiresAt
  legs : swap.offers ≠ [] ∧ swap.demands ≠ [] ∧ ∀ leg ∈ swap.offers ++ swap.demands, 0 < leg.amount

/-- A call that accepted a basket, signed by the taker in time. -/
structure Accepts (e : Entry Desk DeskCall) (x : Deal) : Prop where
  call : ∃ env, e.invocation = .acceptBasketSwap env x.swapId x.partyB ∧ x.partyB ∈ env.auths ∧
    env.sequence ≤ x.swap.expiresAt
  pending : e.before.baskets.lookup x.swapId = some x.swap ∧ x.swap.state = .pending

section Steps
variable {sha256 : Bytes32 → Bytes32} {house : Address} {env : BasketEnv} {d d' : Desk}

theorem payLegs_ok {purpose : BasketPurpose} {source target : Address} {legs : List BasketLeg}
    (h : legs.foldlM (payLeg env purpose source target) d = .ok d') :
    d' = { d with settled := d.settled ++ legs.map (legTransfer purpose source target) } := by
  induction legs generalizing d with
  | nil =>
    rw [List.foldlM_nil, pure_eq_ok] at h
    rw [← h, List.map_nil, List.append_nil]
  | cons leg legs ih =>
    simp only [List.foldlM_cons, payLeg, bind_eq_ok, pure_eq_ok] at h
    obtain ⟨_, ⟨_, _, rfl⟩, hrest⟩ := h
    rw [ih hrest]
    simp only [List.map_cons, List.append_assoc, List.singleton_append, legTransfer]

theorem ensureValidLegs_ok {legs : List BasketLeg}
    (h : legs.forM ensureValidLeg = .ok ()) : ∀ leg ∈ legs, 0 < leg.amount := by
  intro leg hleg
  have hvalid := forM_ok h leg hleg
  rw [ensureValidLeg, rejectIf_eq_ok, not_le] at hvalid
  exact hvalid

/-- What a returning call did to the baskets. -/
inductive DeskMove (x : DeskCall) (d d' : Desk) : Prop where
  | swapped (call : ∃ i, x = .swap i) (baskets : d'.baskets = d.baskets)
      (settled : d'.settled = d.settled)
      (count : d.swaps.initialized = none ∨ d'.basketSwapCount = d.basketSwapCount)
      (initialized : d.swaps.initialized ≠ none → d'.swaps.initialized ≠ none)
  | offered (swap : BasketSwapInfo) (offers : Offers ⟨d, x, d'⟩ swap)
      (fresh : swap.id = d.basketSwapCount.getD 0 ∧ swap.state = .pending)
      (initialized : d.swaps.initialized ≠ none)
      (result : d' = { putBasket swap swap.id d with basketSwapCount := some (swap.id + 1) })
  | accepted (deal : Deal) (accepts : Accepts ⟨d, x, d'⟩ deal)
      (result : d' = { putBasket { deal.swap with state := .executed } deal.swapId d with
        settled := d.settled ++ deal.settlement })

theorem propose_move {x : DeskCall} {partyA : Address} {offers demands : List BasketLeg}
    {expiresAt swapId : ℕ} (hx : x = .proposeBasketSwap env partyA offers demands expiresAt)
    (h : proposeBasketSwap env partyA offers demands expiresAt d = .ok (swapId, d')) :
    DeskMove x d d' := by
  simp only [proposeBasketSwap, bind_eq_ok, rejectIf_eq_ok, requireAuth_eq_ok, okOr_eq_ok,
    checkedAddU32_eq_some, pure_eq_ok, not_or, not_le] at h
  obtain ⟨_, hinit, _, hauth, _, hdeadline, _, ⟨hoffers, hdemands⟩, _, hvalid, _, hvalid', _, ⟨_, rfl⟩,
    hresult⟩ := h
  obtain ⟨_, rfl⟩ := Prod.mk.inj hresult
  refine .offered ⟨d.basketSwapCount.getD 0, partyA, offers, demands, expiresAt, .pending⟩
    ⟨⟨env, hx, hauth, hdeadline⟩, hoffers, hdemands, ?_⟩ ⟨rfl, rfl⟩ (by simpa using hinit) rfl
  intro leg hleg
  rcases List.mem_append.mp hleg with hleg | hleg
  · exact ensureValidLegs_ok hvalid leg hleg
  · exact ensureValidLegs_ok hvalid' leg hleg

theorem accept_move {x : DeskCall} {swapId id : ℕ} {partyB : Address}
    (hx : x = .acceptBasketSwap env swapId partyB)
    (h : acceptBasketSwap env swapId partyB d = .ok (id, d')) : DeskMove x d d' := by
  simp only [acceptBasketSwap, requirePendingBasket, bind_eq_ok, requireAuth_eq_ok, okOr_eq_ok,
    rejectIf_eq_ok, Decidable.not_not, not_lt, pure_eq_ok] at h
  obtain ⟨_, hauth, swap, hswap, _, hpending, _, htimely, d₁, hdemands, d₂, hoffers, hresult⟩ := h
  obtain ⟨_, rfl⟩ := Prod.mk.inj hresult
  rw [payLegs_ok hdemands] at hoffers
  rw [payLegs_ok hoffers]
  refine .accepted ⟨swapId, partyB, swap⟩ ⟨⟨env, hx, hauth, htimely⟩, hswap, hpending⟩ ?_
  simp only [putBasket, Deal.settlement, List.append_assoc]

theorem deskExec_move {x : DeskCall} (h : deskExec sha256 house x d = .ok d') : DeskMove x d d' := by
  cases x with
  | swap i =>
    simp only [deskExec] at h
    split at h
    · next swaps hswaps =>
      cases h
      refine .swapped ⟨i, rfl⟩ rfl rfl ?_ ?_
      · by_cases hnone : d.swaps.initialized = none
        · exact .inl hnone
        · refine .inr ?_
          cases hcall : i.call <;> simp only [countAfter]
          simp only [exec, hcall, initializeSwaps, bind_eq_ok, rejectIf_eq_ok] at hswaps
          obtain ⟨_, hinit, _⟩ := hswaps
          exact absurd (by simpa using hinit) hnone
      · intro hset
        rcases (exec_move hswaps).config with ⟨hnone, _⟩ | ⟨hinit, _⟩
        · exact absurd hnone hset
        · dsimp only
          rw [hinit]
          exact hset
    · cases h
  | proposeBasketSwap env partyA offers demands expiresAt =>
    simp only [deskExec] at h
    split at h
    · next hpropose =>
      cases h
      exact propose_move rfl hpropose
    · cases h
  | acceptBasketSwap env swapId partyB =>
    simp only [deskExec] at h
    split at h
    · next haccept =>
      cases h
      exact accept_move rfl haccept
    · cases h

end Steps

section Invariant
variable {sha256 : Bytes32 → Bytes32} {house : Address} {past : List (Entry Desk DeskCall)}
  {d d' : Desk} {x : DeskCall}

/-- What a history says of the baskets. -/
structure DeskBooks (past : List (Entry Desk DeskCall)) (d : Desk) : Prop where
  log : d.settled = (deals past).flatMap Deal.settlement
  once : ((deals past).map Deal.swapId).Nodup
  accepted : ∀ deal ∈ deals past, (∃ e ∈ past, Accepts e deal) ∧
    d.baskets.lookup deal.swapId = some { deal.swap with state := .executed }
  offered : ∀ k swap, d.baskets.lookup k = some swap → swap.id = k ∧ ∃ e ∈ past, Offers e swap
  open_ : ∀ k swap, d.baskets.lookup k = some swap → swap.state = .pending ∨
    ∃ deal ∈ deals past, deal.swapId = k
  counted : ∀ k swap, d.baskets.lookup k = some swap →
    k < d.basketSwapCount.getD 0 ∧ d.swaps.initialized ≠ none

theorem deskBooks_empty : DeskBooks [] {} where
  log := rfl
  once := List.nodup_nil
  accepted _ h := by cases h
  offered _ _ h := by cases h
  open_ _ _ h := by cases h
  counted _ _ h := by cases h

theorem deals_append (e : Entry Desk DeskCall) : deals (past ++ [e]) = deals past ++ (dealOf e).toList := by
  unfold deals
  rw [List.filterMap_append]
  cases hdeal : dealOf e <;> simp [hdeal]

theorem lookup_putBasket {swap : BasketSwapInfo} {swapId : ℕ} (k : ℕ) :
    (putBasket swap swapId d).baskets.lookup k =
      if k = swapId then some swap else d.baskets.lookup k :=
  lookup_insert_ite _ _ _ _

theorem dealOf_offers {e : Entry Desk DeskCall} {swap : BasketSwapInfo} (h : Offers e swap) :
    dealOf e = none := by
  obtain ⟨env, hcall, _⟩ := h.call
  unfold dealOf
  rw [hcall]

theorem dealOf_accepts {e : Entry Desk DeskCall} {deal : Deal} (h : Accepts e deal) :
    dealOf e = some deal := by
  obtain ⟨env, hcall, _⟩ := h.call
  unfold dealOf
  rw [hcall]
  dsimp only
  rw [h.pending.1]
  rfl

theorem Offers.state_irrelevant {e : Entry Desk DeskCall} {swap : BasketSwapInfo} (h : Offers e swap)
    (state : SwapState) : Offers e { swap with state := state } :=
  ⟨h.call, h.legs⟩

/-- A call on the swaps books nothing. -/
theorem DeskBooks.swapped (hb : DeskBooks past d) (call : ∃ i, x = .swap i)
    (baskets : d'.baskets = d.baskets) (settled : d'.settled = d.settled)
    (count : d.swaps.initialized = none ∨ d'.basketSwapCount = d.basketSwapCount)
    (initialized : d.swaps.initialized ≠ none → d'.swaps.initialized ≠ none) :
    DeskBooks (past ++ [⟨d, x, d'⟩]) d' := by
  obtain ⟨i, rfl⟩ := call
  have hdeals : deals (past ++ [⟨d, .swap i, d'⟩]) = deals past := by
    rw [deals_append]
    exact List.append_nil _
  refine ⟨?_, ?_, ?_, ?_, ?_, ?_⟩
  · rw [hdeals, settled]
    exact hb.log
  · rw [hdeals]
    exact hb.once
  · intro deal hdeal
    rw [hdeals] at hdeal
    obtain ⟨⟨e, he, haccepts⟩, hlookup⟩ := hb.accepted deal hdeal
    rw [baskets]
    exact ⟨⟨e, List.mem_append_left _ he, haccepts⟩, hlookup⟩
  · intro k swap hk
    rw [baskets] at hk
    obtain ⟨hid, e, he, hoffers⟩ := hb.offered k swap hk
    exact ⟨hid, e, List.mem_append_left _ he, hoffers⟩
  · intro k swap hk
    rw [baskets] at hk
    rw [hdeals]
    exact hb.open_ k swap hk
  · intro k swap hk
    rw [baskets] at hk
    obtain ⟨hbelow, hset⟩ := hb.counted k swap hk
    refine ⟨?_, initialized hset⟩
    rcases count with hnone | hcount
    · exact absurd hnone hset
    · rw [hcount]
      exact hbelow

/-- A new basket has a number that no deal has. -/
theorem DeskBooks.offer (hb : DeskBooks past d) {swap : BasketSwapInfo}
    (offers : Offers ⟨d, x, d'⟩ swap)
    (fresh : swap.id = d.basketSwapCount.getD 0 ∧ swap.state = .pending)
    (initialized : d.swaps.initialized ≠ none)
    (result : d' = { putBasket swap swap.id d with basketSwapCount := some (swap.id + 1) }) :
    DeskBooks (past ++ [⟨d, x, d'⟩]) d' := by
  have hdeals : deals (past ++ [⟨d, x, d'⟩]) = deals past := by
    rw [deals_append, dealOf_offers offers]
    exact List.append_nil _
  have hlookup : ∀ k, d'.baskets.lookup k = if k = swap.id then some swap else d.baskets.lookup k := by
    intro k
    rw [result]
    exact lookup_putBasket k
  have hnew : ∀ k other, d.baskets.lookup k = some other → k ≠ swap.id := by
    intro k other hk
    have hbelow := (hb.counted k other hk).1
    have hid := fresh.1
    omega
  refine ⟨?_, ?_, ?_, ?_, ?_, ?_⟩
  · rw [hdeals, result]
    exact hb.log
  · rw [hdeals]
    exact hb.once
  · intro deal hdeal
    rw [hdeals] at hdeal
    obtain ⟨⟨e, he, haccepts⟩, hk⟩ := hb.accepted deal hdeal
    rw [hlookup, if_neg (hnew _ _ hk)]
    exact ⟨⟨e, List.mem_append_left _ he, haccepts⟩, hk⟩
  · intro k other hk
    rw [hlookup] at hk
    split at hk
    · next heq =>
      cases hk
      exact ⟨heq.symm, _, List.mem_append_right _ List.mem_cons_self, offers⟩
    · obtain ⟨hid, e, he, hoffers⟩ := hb.offered k other hk
      exact ⟨hid, e, List.mem_append_left _ he, hoffers⟩
  · intro k other hk
    rw [hlookup] at hk
    rw [hdeals]
    split at hk
    · cases hk
      exact .inl fresh.2
    · exact hb.open_ k other hk
  · intro k other hk
    rw [hlookup] at hk
    rw [result]
    refine ⟨?_, initialized⟩
    change k < swap.id + 1
    split at hk
    · next heq => omega
    · have hbelow := (hb.counted k other hk).1
      have hid := fresh.1
      omega

/-- A pending basket has no deal yet. -/
theorem DeskBooks.accept (hb : DeskBooks past d) {deal : Deal} (accepts : Accepts ⟨d, x, d'⟩ deal)
    (result : d' = { putBasket { deal.swap with state := .executed } deal.swapId d with
      settled := d.settled ++ deal.settlement }) : DeskBooks (past ++ [⟨d, x, d'⟩]) d' := by
  obtain ⟨hfound, hpending⟩ := accepts.pending
  have hdeals : deals (past ++ [⟨d, x, d'⟩]) = deals past ++ [deal] := by
    rw [deals_append, dealOf_accepts accepts]
    rfl
  have hlookup : ∀ k, d'.baskets.lookup k =
      if k = deal.swapId then some { deal.swap with state := .executed } else d.baskets.lookup k := by
    intro k
    rw [result]
    exact lookup_putBasket k
  have hnew : ∀ other ∈ deals past, other.swapId ≠ deal.swapId := by
    intro other hother heq
    have hexecuted := (hb.accepted other hother).2
    rw [heq] at hexecuted
    have hsame := Option.some_inj.mp (hfound.symm.trans hexecuted)
    rw [hsame] at hpending
    cases hpending
  refine ⟨?_, ?_, ?_, ?_, ?_, ?_⟩
  · rw [hdeals, List.flatMap_append, List.flatMap_singleton, ← hb.log, result]
  · rw [hdeals, List.map_append, List.map_singleton, List.nodup_append]
    refine ⟨hb.once, List.nodup_singleton _, ?_⟩
    intro a ha b hb'
    obtain ⟨other, hother, rfl⟩ := List.mem_map.mp ha
    rw [List.mem_singleton.mp hb']
    exact hnew other hother
  · intro other hother
    rw [hdeals] at hother
    rw [hlookup]
    rcases List.mem_append.mp hother with hold | hlast
    · obtain ⟨⟨e, he, haccepts⟩, hk⟩ := hb.accepted other hold
      rw [if_neg (hnew other hold)]
      exact ⟨⟨e, List.mem_append_left _ he, haccepts⟩, hk⟩
    · obtain rfl := List.mem_singleton.mp hlast
      rw [if_pos rfl]
      exact ⟨⟨_, List.mem_append_right _ List.mem_cons_self, accepts⟩, rfl⟩
  · intro k other hk
    rw [hlookup] at hk
    split at hk
    · next heq =>
      cases hk
      obtain ⟨hid, e, he, hoffers⟩ := hb.offered _ _ hfound
      exact ⟨hid.trans heq.symm, e, List.mem_append_left _ he, hoffers.state_irrelevant _⟩
    · obtain ⟨hid, e, he, hoffers⟩ := hb.offered k other hk
      exact ⟨hid, e, List.mem_append_left _ he, hoffers⟩
  · intro k other hk
    rw [hlookup] at hk
    rw [hdeals]
    split at hk
    · next heq => exact .inr ⟨deal, List.mem_append_right _ List.mem_cons_self, heq.symm⟩
    · rcases hb.open_ k other hk with hopen | ⟨old, hold, hid⟩
      · exact .inl hopen
      · exact .inr ⟨old, List.mem_append_left _ hold, hid⟩
  · intro k other hk
    rw [hlookup] at hk
    rw [result]
    change k < d.basketSwapCount.getD 0 ∧ d.swaps.initialized ≠ none
    split at hk
    · next heq =>
      rw [heq]
      exact hb.counted _ _ hfound
    · exact hb.counted k other hk

theorem DeskBooks.step (hb : DeskBooks past d) (h : deskExec sha256 house x d = .ok d') :
    DeskBooks (past ++ [⟨d, x, d'⟩]) d' := by
  cases deskExec_move h with
  | swapped call baskets settled count initialized =>
    exact hb.swapped call baskets settled count initialized
  | offered swap offers fresh initialized result => exact hb.offer offers fresh initialized result
  | accepted deal accepts result => exact hb.accept accepts result

end Invariant

/-- In every run, the transfers of baskets are the settlements of the accepted ones, one after the
    other and each basket at most once: every demanded leg goes from the taker to the maker and every
    offered leg from the maker to the taker, as the maker offered them with a signature and as the
    taker accepted them with one, in time. A basket is executed if and only if it was accepted, and
    pending otherwise. -/
theorem baskets_settle_once (sha256 : Bytes32 → Bytes32) (house : Address) (xs : List DeskCall) :
    (deskRun sha256 house xs).settled =
        (deals (deskHistory sha256 house xs)).flatMap Deal.settlement ∧
      ((deals (deskHistory sha256 house xs)).map Deal.swapId).Nodup ∧
      (∀ deal ∈ deals (deskHistory sha256 house xs),
        (∃ e ∈ deskHistory sha256 house xs, Accepts e deal) ∧
        ∃ e ∈ deskHistory sha256 house xs, Offers e deal.swap) ∧
      ∀ k swap, (deskRun sha256 house xs).baskets.lookup k = some swap →
        (swap.state = .executed ↔ ∃ deal ∈ deals (deskHistory sha256 house xs), deal.swapId = k) ∧
        (swap.state = .pending ↔ ∀ deal ∈ deals (deskHistory sha256 house xs), deal.swapId ≠ k) := by
  have hb : DeskBooks (deskHistory sha256 house xs) (deskRun sha256 house xs) :=
    history_invariant_along (P := fun _ _ => True) (fun _ _ _ _ hb _ h => hb.step h) deskBooks_empty
      (along_true _ _ _)
  refine ⟨hb.log, hb.once, ?_, ?_⟩
  · intro deal hdeal
    obtain ⟨haccepted, hlookup⟩ := hb.accepted deal hdeal
    obtain ⟨_, e, he, hoffers⟩ := hb.offered _ _ hlookup
    exact ⟨haccepted, e, he, hoffers.state_irrelevant deal.swap.state⟩
  · intro k swap hk
    have hexecuted : ∀ deal ∈ deals (deskHistory sha256 house xs), deal.swapId = k →
        swap.state = .executed := by
      rintro deal hdeal rfl
      have hsame := (hb.accepted deal hdeal).2
      rw [hk] at hsame
      rw [Option.some_inj.mp hsame]
    refine ⟨⟨fun hstate => ?_, fun ⟨deal, hdeal, hid⟩ => hexecuted deal hdeal hid⟩, fun hstate => ?_,
      fun hnone => ?_⟩
    · rcases hb.open_ k swap hk with hopen | hdone
      · rw [hstate] at hopen
        cases hopen
      · exact hdone
    · intro deal hdeal hid
      have hdone := hexecuted deal hdeal hid
      rw [hstate] at hdone
      cases hdone
    · rcases hb.open_ k swap hk with hopen | ⟨deal, hdeal, hid⟩
      · exact hopen
      · exact absurd hid (hnone deal hdeal)

def deskMaker : Address := ⟨3⟩
def deskTaker : Address := ⟨5⟩

def deskEnv (sequence : ℕ) : BasketEnv where
  sequence := sequence
  auths := [deskMaker, deskTaker]
  tokens := ⟨fun _ _ => 0, fun _ _ => true, fun _ => true⟩

def deskOpening : Invocation where
  sequence := 1
  auths := [deskMaker]
  tokens := ⟨fun _ _ => 0, fun _ _ => true, fun _ => true⟩
  reported _ _ := 0
  call := .initializeSwaps deskMaker deskMaker 0

/-- A basket is accepted, and not a second time. -/
example : (deskRun id ⟨0⟩ [.swap deskOpening,
      .proposeBasketSwap (deskEnv 2) deskMaker [⟨⟨6⟩, 10⟩, ⟨⟨7⟩, 20⟩] [⟨⟨8⟩, 5⟩] 9,
      .acceptBasketSwap (deskEnv 9) 0 deskTaker, .acceptBasketSwap (deskEnv 9) 0 deskTaker]).settled =
    [⟨.demand 0, ⟨8⟩, deskTaker, deskMaker, 5⟩, ⟨.offer 0, ⟨6⟩, deskMaker, deskTaker, 10⟩,
      ⟨.offer 0, ⟨7⟩, deskMaker, deskTaker, 20⟩] := by decide +kernel

end SorobanKit.Swap
