import SorobanKit.WrappedTokenContract

set_option autoImplicit false

/-!
# What a batch moves

A batch that returns made a list of transfers that the request and the fee determine. Wrapping
takes the gross amounts from the user and mints the net ones; unwrapping burns the gross amounts
and pays out the net ones.
-/
namespace SorobanKit.WrappedToken
open CommonMath HostBalances HostInteger HostInvocation HostTransfers

variable {house user underlying source : Address} {env : Env} {s t : State} {bps : Option ℕ}
  {recipients : List (Address × ℤ)}

def feePart (bps : Option ℕ) (amount : ℤ) : ℤ := (amount * (bps.getD 0 : ℕ)).tdiv bpsDenominator

def netPart (bps : Option ℕ) (amount : ℤ) : ℤ := amount - feePart bps amount

def grossTotal (recipients : List (Address × ℤ)) : ℤ := (recipients.map Prod.snd).sum

def feeTotal (bps : Option ℕ) (recipients : List (Address × ℤ)) : ℤ :=
  (recipients.map fun r => feePart bps r.2).sum

def netTotal (bps : Option ℕ) (recipients : List (Address × ℤ)) : ℤ :=
  (recipients.map fun r => netPart bps r.2).sum

theorem netTotal_eq (bps : Option ℕ) (recipients : List (Address × ℤ)) :
    netTotal bps recipients = grossTotal recipients - feeTotal bps recipients := by
  unfold netTotal grossTotal feeTotal
  induction recipients with
  | nil => rfl
  | cons r rest ih =>
    rw [List.map_cons, List.map_cons, List.map_cons, List.sum_cons, List.sum_cons, List.sum_cons, ih,
      netPart]
    omega

/-- What every recipient of a batch that is accepted gets. -/
def Payable (bps : Option ℕ) (recipients : List (Address × ℤ)) : Prop :=
  ∀ r ∈ recipients, 0 < r.2 ∧ 0 < netPart bps r.2

theorem feeFor_ok {amount fee : ℤ} (h : feeFor bps amount = .ok fee) : fee = feePart bps amount := by
  unfold feeFor at h
  unfold feePart
  split at h
  · next hzero =>
    rw [pure_eq_ok] at h
    rw [hzero, ← h]
    simp
  · rw [okOr_eq_ok] at h
    exact mulDiv_toOption h

theorem splitEntries_ok {acc split : Split} (h : recipients.foldlM (splitEntry bps) acc = .ok split) :
    Payable bps recipients ∧ split = ⟨acc.gross + grossTotal recipients,
      acc.fee + feeTotal bps recipients, acc.nets ++ recipients.map fun r => netPart bps r.2⟩ := by
  induction recipients generalizing acc with
  | nil =>
    rw [List.foldlM_nil, pure_eq_ok] at h
    simp [Payable, grossTotal, feeTotal, ← h]
  | cons r rest ih =>
    rw [List.foldlM_cons, bind_eq_ok] at h
    obtain ⟨mid, hmid, h⟩ := h
    simp only [splitEntry, bind_eq_ok, rejectIf_eq_ok, okOr_eq_ok, checkedSub_eq_some,
      checkedAdd_eq_some, pure_eq_ok] at hmid
    obtain ⟨_, hamount, fee, hfee, net, ⟨_, rfl⟩, _, hnet, _, ⟨_, rfl⟩, _, ⟨_, rfl⟩, rfl⟩ := hmid
    have hpart := feeFor_ok hfee
    subst hpart
    obtain ⟨hrest, rfl⟩ := ih h
    refine ⟨List.forall_mem_cons.mpr ⟨⟨not_le.mp hamount, not_le.mp hnet⟩, hrest⟩, ?_⟩
    simp only [grossTotal, feeTotal, List.map_cons, List.sum_cons, List.append_assoc,
      List.singleton_append, netPart, add_assoc]

theorem splitBatch_ok {split : Split} (h : splitBatch bps recipients = .ok split) :
    Payable bps recipients ∧ split = ⟨grossTotal recipients, feeTotal bps recipients,
      recipients.map fun r => netPart bps r.2⟩ := by
  simp only [splitBatch, bind_eq_ok, rejectIf_eq_ok] at h
  obtain ⟨_, _, h⟩ := h
  simpa using splitEntries_ok h

theorem zip_nets (bps : Option ℕ) (recipients : List (Address × ℤ)) :
    recipients.zip (recipients.map fun r => netPart bps r.2) =
      recipients.map fun r => (r, netPart bps r.2) := by
  induction recipients with
  | nil => rfl
  | cons r rest ih => rw [List.map_cons, List.zip_cons_cons, List.map_cons, ih]

theorem feePart_nonneg {amount : ℤ} (h : 0 ≤ amount) : 0 ≤ feePart bps amount :=
  Int.tdiv_nonneg (Int.mul_nonneg h (Int.natCast_nonneg _)) (by decide)

theorem feeTotal_nonneg (h : Payable bps recipients) : 0 ≤ feeTotal bps recipients := by
  apply List.sum_nonneg
  intro v hv
  obtain ⟨r, hr, rfl⟩ := List.mem_map.mp hv
  exact feePart_nonneg (le_of_lt (h r hr).1)

theorem netTotal_nonneg (h : Payable bps recipients) : 0 ≤ netTotal bps recipients := by
  apply List.sum_nonneg
  intro v hv
  obtain ⟨r, hr, rfl⟩ := List.mem_map.mp hv
  exact le_of_lt (h r hr).2

/-- What the contract holds after a list of transfers. -/
def settle (house : Address) (env : Env) : List (Transfer Purpose) → ℤ → List (Transfer Purpose) → ℤ
  | _, reserve, [] => reserve
  | log, reserve, x :: xs =>
    settle house env (log ++ [x])
      (reserve + (if x.target = house then (env.delivers log x : ℤ) else 0) -
        (if x.source = house then x.amount else 0)) xs

def moved (house : Address) (env : Env) (xs : List (Transfer Purpose)) (s : State) : State := { s with
  reserve := settle house env s.transfers s.reserve xs
  transfers := s.transfers ++ xs }

theorem moved_nil (s : State) : moved house env [] s = s := by
  unfold moved settle
  rw [List.append_nil]

theorem moved_cons (x : Transfer Purpose) (xs : List (Transfer Purpose)) (s : State) :
    moved house env (x :: xs) s = moved house env xs (moved house env [x] s) := by
  simp only [moved, settle, List.append_assoc, List.singleton_append]

theorem moved_append (xs ys : List (Transfer Purpose)) (s : State) :
    moved house env (xs ++ ys) s = moved house env ys (moved house env xs s) := by
  induction xs generalizing s with
  | nil => rw [List.nil_append, moved_nil]
  | cons x xs ih => rw [List.cons_append, moved_cons, ih, ← moved_cons]

theorem callTransfer_eq_ok {x : Transfer Purpose} :
    callTransfer house env x s = .ok t ↔ env.accepts s.transfers x ∧ moved house env [x] s = t := by
  simp only [callTransfer, bind_eq_ok, trapUnless_eq_ok, pure_eq_ok, moved, settle, exists_and_left,
    exists_const]

theorem settle_outgoing {xs : List (Transfer Purpose)} (log : List (Transfer Purpose)) (reserve : ℤ)
    (h : ∀ x ∈ xs, 0 ≤ x.amount) :
    reserve - (xs.map Transfer.amount).sum ≤ settle house env log reserve xs := by
  induction xs generalizing log reserve with
  | nil => simp [settle]
  | cons x xs ih =>
    obtain ⟨hx, hrest⟩ := List.forall_mem_cons.mp h
    rw [settle, List.map_cons, List.sum_cons]
    refine le_trans ?_ (ih _ _ hrest)
    split <;> split <;> omega

theorem settle_incoming {xs : List (Transfer Purpose)} (log : List (Transfer Purpose)) (reserve : ℤ)
    (h : ∀ x ∈ xs, x.source ≠ house) : reserve ≤ settle house env log reserve xs := by
  induction xs generalizing log reserve with
  | nil => exact le_refl _
  | cons x xs ih =>
    obtain ⟨hx, hrest⟩ := List.forall_mem_cons.mp h
    rw [settle]
    refine le_trans ?_ (ih _ _ hrest)
    rw [if_neg hx]
    split <;> omega

/-- The underlying token delivers what is sent. -/
def Env.Honest (env : Env) : Prop :=
  ∀ log (x : Transfer Purpose), 0 ≤ x.amount → (env.delivers log x : ℤ) = x.amount

theorem settle_honest (hhonest : env.Honest) {xs : List (Transfer Purpose)}
    (log : List (Transfer Purpose)) (reserve : ℤ)
    (h : ∀ x ∈ xs, x.token = underlying ∧ 0 ≤ x.amount) :
    settle house env log reserve xs = reserve + gain underlying house xs := by
  induction xs generalizing log reserve with
  | nil => simp [settle]
  | cons x xs ih =>
    obtain ⟨⟨htoken, hx⟩, hrest⟩ := List.forall_mem_cons.mp h
    have hone : gain underlying house [x] = (if x.target = house then x.amount else 0) -
        (if x.source = house then x.amount else 0) := by
      simp [gain, received, sent, htoken]
    rw [settle, ih _ _ hrest, hhonest log x hx, ← List.singleton_append, gain_append, hone]
    omega

/-- The transfer of a fee, if there is one. -/
def feeTransfers (underlying source : Address) (feeRecipient : Option Address) (fee : ℤ) :
    List (Transfer Purpose) :=
  if 0 < fee then feeRecipient.toList.map fun r => ⟨.fee, underlying, source, r, fee⟩ else []

theorem feeTransfers_mem {feeRecipient : Option Address} {fee : ℤ} {x : Transfer Purpose}
    (h : x ∈ feeTransfers underlying source feeRecipient fee) :
    0 < fee ∧ ∃ r ∈ feeRecipient, x = ⟨.fee, underlying, source, r, fee⟩ := by
  unfold feeTransfers at h
  split at h
  · next hpos =>
    obtain ⟨r, hr, rfl⟩ := List.mem_map.mp h
    exact ⟨hpos, r, Option.mem_toList.mp hr, rfl⟩
  · cases h

theorem feeTransfers_sum {feeRecipient : Option Address} {fee : ℤ} (hnonneg : 0 ≤ fee)
    (h : 0 < fee → feeRecipient.isSome) :
    ((feeTransfers underlying source feeRecipient fee).map Transfer.amount).sum = fee := by
  unfold feeTransfers
  split
  · next hpos =>
    obtain ⟨r, hr⟩ := Option.isSome_iff_exists.mp (h hpos)
    rw [hr]
    simp
  · next hnot =>
    rw [List.map_nil, List.sum_nil]
    omega

theorem payFee_ok {fee : ℤ} (h : payFee house env underlying source fee s = .ok t) :
    t = moved house env (feeTransfers underlying source s.feeRecipient fee) s ∧
      (0 < fee → s.feeRecipient.isSome) := by
  unfold payFee at h
  unfold feeTransfers
  split at h
  · next hpos =>
    simp only [bind_eq_ok, okOr_eq_ok, callTransfer_eq_ok] at h
    obtain ⟨r, hr, _, rfl⟩ := h
    rw [if_pos hpos, hr]
    exact ⟨rfl, fun _ => rfl⟩
  · next hnot =>
    rw [pure_eq_ok] at h
    rw [if_neg hnot, moved_nil, h]
    exact ⟨rfl, fun hpos => absurd hpos hnot⟩

theorem mintAll_ok {xs : List ((Address × ℤ) × ℤ)} {running final : ℤ}
    (h : xs.foldlM mintOne (s, running) = .ok (t, final)) :
    t = { s with holdings := creditAll s.holdings (xs.map fun x => (x.1.1, x.2)) } := by
  induction xs generalizing s running with
  | nil =>
    rw [List.foldlM_nil, pure_eq_ok] at h
    cases h
    rfl
  | cons x xs ih =>
    simp only [List.foldlM_cons, mintOne, mint, bind_eq_ok, trapUnless_eq_ok, pure_eq_ok, okOr_eq_ok]
      at h
    obtain ⟨_, ⟨_, ⟨_, _, rfl⟩, _, _, rfl⟩, h⟩ := h
    exact ih h

theorem payAll_ok {xs : List ((Address × ℤ) × ℤ)} {running final : ℤ}
    (h : xs.foldlM (payOne house env underlying) (s, running) = .ok (t, final)) :
    t = moved house env (xs.map fun x => ⟨.payout, underlying, house, x.1.1, x.2⟩) s := by
  induction xs generalizing s running with
  | nil =>
    rw [List.foldlM_nil, pure_eq_ok] at h
    cases h
    exact (moved_nil t).symm
  | cons x xs ih =>
    simp only [List.foldlM_cons, payOne, bind_eq_ok, callTransfer_eq_ok, pure_eq_ok, okOr_eq_ok] at h
    obtain ⟨_, ⟨_, ⟨_, rfl⟩, _, _, rfl⟩, h⟩ := h
    rw [List.map_cons, moved_cons]
    exact ih h

theorem countWrapped_ok {code : WrappedTokenError} {amount : ℤ}
    (h : countWrapped code user amount s = .ok t) :
    ∃ counted, t = { s with wrappedByAddress := counted } := by
  unfold countWrapped at h
  split at h
  · rw [pure_eq_ok] at h
    exact ⟨s.wrappedByAddress, h.symm⟩
  · simp only [bind_eq_ok, okOr_eq_ok, rejectIf_eq_ok, pure_eq_ok] at h
    obtain ⟨_, _, _, _, rfl⟩ := h
    exact ⟨_, rfl⟩

/-- The user pays the net amounts to the contract and the fees. -/
def depositTransfers (house underlying user : Address) (s : State)
    (recipients : List (Address × ℤ)) : List (Transfer Purpose) :=
  ⟨.deposit, underlying, user, house, netTotal s.wrapFeeBps recipients⟩ ::
    feeTransfers underlying user s.feeRecipient (feeTotal s.wrapFeeBps recipients)

/-- The contract pays the net amounts to the recipients and the fees. -/
def payoutTransfers (house underlying : Address) (s : State) (recipients : List (Address × ℤ)) :
    List (Transfer Purpose) :=
  (recipients.map fun r => ⟨.payout, underlying, house, r.1, netPart s.unwrapFeeBps r.2⟩) ++
    feeTransfers underlying house s.feeRecipient (feeTotal s.unwrapFeeBps recipients)

/-- The net amounts, for each recipient. -/
def netCredits (bps : Option ℕ) (recipients : List (Address × ℤ)) : List (Address × ℤ) :=
  recipients.map fun r => (r.1, netPart bps r.2)

theorem netCredits_sum (bps : Option ℕ) (recipients : List (Address × ℤ)) :
    ((netCredits bps recipients).map Prod.snd).sum = netTotal bps recipients := by
  rw [netCredits, List.map_map]
  rfl

/-- What a batch that wrapped did. -/
structure WrappedAll (house : Address) (env : Env) (user underlying : Address)
    (recipients : List (Address × ℤ)) (s t : State) : Prop where
  loaded : s.underlyingToken = some underlying
  signed : user ∈ env.auths
  payable : Payable s.wrapFeeBps recipients
  fee_paid : 0 < feeTotal s.wrapFeeBps recipients → s.feeRecipient.isSome
  fits : InI128 (s.totalWrapped.getD 0 + netTotal s.wrapFeeBps recipients)
  result : ∃ counted, t = { moved house env (depositTransfers house underlying user s recipients) s with
    wrappedByAddress := counted
    holdings := creditAll s.holdings (netCredits s.wrapFeeBps recipients)
    totalWrapped := some (s.totalWrapped.getD 0 + netTotal s.wrapFeeBps recipients) }

theorem doWrap_ok (h : doWrap house env user recipients s = .ok t) :
    ∃ underlying, WrappedAll house env user underlying recipients s t := by
  simp only [doWrap, loadTokens, bind_eq_ok, rejectIf_eq_ok, requireAuth_eq_ok, okOr_eq_ok,
    pure_eq_ok, checkedSub_eq_some, checkedAdd_eq_some] at h
  obtain ⟨_, _, _, _, split, hsplit, _, hauth, ⟨_, underlying⟩, ⟨_, _, _, hloaded, heq⟩, s₁, hcount, _,
    ⟨_, rfl⟩, _, ⟨hfits, rfl⟩, s₂, hdeposit, s₃, hfee, ⟨s₄, final⟩, hmint, rfl⟩ := h
  cases heq
  obtain ⟨hpayable, rfl⟩ := splitBatch_ok hsplit
  obtain ⟨counted, rfl⟩ := countWrapped_ok hcount
  obtain ⟨_, rfl⟩ := callTransfer_eq_ok.mp hdeposit
  obtain ⟨rfl, hpaid⟩ := payFee_ok hfee
  dsimp only at hmint hfits hpaid
  rw [zip_nets] at hmint
  have hminted := mintAll_ok hmint
  subst hminted
  rw [← netTotal_eq] at hfits
  refine ⟨underlying, hloaded, hauth, hpayable, hpaid, hfits, counted, ?_⟩
  have htransfers : depositTransfers house underlying user s recipients =
      [⟨.deposit, underlying, user, house, netTotal s.wrapFeeBps recipients⟩] ++
        feeTransfers underlying user s.feeRecipient (feeTotal s.wrapFeeBps recipients) := rfl
  rw [htransfers, moved_append, netTotal_eq, netCredits, List.map_map]
  rfl

/-- What a batch that unwrapped did. -/
structure UnwrappedAll (house : Address) (env : Env) (user underlying : Address)
    (recipients : List (Address × ℤ)) (s t : State) : Prop where
  loaded : s.underlyingToken = some underlying
  signed : user ∈ env.auths
  payable : Payable s.unwrapFeeBps recipients
  fee_paid : 0 < feeTotal s.unwrapFeeBps recipients → s.feeRecipient.isSome
  covered : grossTotal recipients ≤ s.totalWrapped.getD 0
  held : grossTotal recipients ≤ entry s.holdings user
  result : t = { moved house env (payoutTransfers house underlying s recipients) s with
    holdings := credit s.holdings user (-grossTotal recipients)
    totalWrapped := some (s.totalWrapped.getD 0 - grossTotal recipients) }

theorem doUnwrap_ok (h : doUnwrap house env user recipients s = .ok t) :
    ∃ underlying, UnwrappedAll house env user underlying recipients s t := by
  simp only [doUnwrap, loadTokens, burn, bind_eq_ok, rejectIf_eq_ok, requireAuth_eq_ok, okOr_eq_ok,
    pure_eq_ok, checkedSub_eq_some, trapUnless_eq_ok] at h
  obtain ⟨_, _, _, _, split, hsplit, _, hauth, ⟨_, underlying⟩, ⟨_, _, _, hloaded, heq⟩, _, ⟨_, rfl⟩, _,
    hcovered, _, ⟨_, _, _, ⟨_, hheld⟩, rfl⟩, ⟨s₂, final⟩, hpay, s₃, hfee, rfl⟩ := h
  cases heq
  obtain ⟨hpayable, rfl⟩ := splitBatch_ok hsplit
  dsimp only at hpay hcovered hheld
  rw [zip_nets] at hpay
  have hpaid := payAll_ok hpay
  subst hpaid
  obtain ⟨rfl, hfeePaid⟩ := payFee_ok hfee
  refine ⟨underlying, hloaded, hauth, hpayable, hfeePaid, by omega, hheld, ?_⟩
  rw [payoutTransfers, moved_append, List.map_map]
  rfl

/-- The deposit arrives, and the fees are not taken from the contract. -/
theorem WrappedAll.reserve_le (h : WrappedAll house env user underlying recipients s t)
    (huser : user ≠ house) :
    s.reserve + env.delivers s.transfers
      ⟨.deposit, underlying, user, house, netTotal s.wrapFeeBps recipients⟩ ≤ t.reserve := by
  obtain ⟨counted, ht⟩ := h.result
  rw [ht]
  dsimp only [moved, depositTransfers]
  rw [settle, if_pos rfl, if_neg huser, sub_zero]
  refine settle_incoming _ _ fun x hx => ?_
  obtain ⟨_, r, _, rfl⟩ := feeTransfers_mem hx
  exact huser

theorem payoutTransfers_mem {x : Transfer Purpose} (hpayable : Payable s.unwrapFeeBps recipients)
    (h : x ∈ payoutTransfers house underlying s recipients) :
    x.token = underlying ∧ x.source = house ∧ 0 ≤ x.amount := by
  rcases List.mem_append.mp h with h | h
  · obtain ⟨r, hr, rfl⟩ := List.mem_map.mp h
    exact ⟨rfl, rfl, le_of_lt (hpayable r hr).2⟩
  · obtain ⟨hpos, r, _, rfl⟩ := feeTransfers_mem h
    exact ⟨rfl, rfl, le_of_lt hpos⟩

theorem depositTransfers_mem {x : Transfer Purpose} (hpayable : Payable s.wrapFeeBps recipients)
    (h : x ∈ depositTransfers house underlying user s recipients) :
    x.token = underlying ∧ x.source = user ∧ 0 ≤ x.amount := by
  rcases List.mem_cons.mp h with rfl | h
  · exact ⟨rfl, rfl, netTotal_nonneg hpayable⟩
  · obtain ⟨hpos, r, _, rfl⟩ := feeTransfers_mem h
    exact ⟨rfl, rfl, le_of_lt hpos⟩

/-- What a batch takes from the user is what was asked of it. -/
theorem WrappedAll.gross_paid (h : WrappedAll house env user underlying recipients s t) :
    ((depositTransfers house underlying user s recipients).map Transfer.amount).sum =
      grossTotal recipients := by
  have hfee : ((feeTransfers underlying user s.feeRecipient
      (feeTotal s.wrapFeeBps recipients)).map Transfer.amount).sum = _ :=
    feeTransfers_sum (feeTotal_nonneg h.payable) h.fee_paid
  rw [depositTransfers, List.map_cons, List.sum_cons, hfee, netTotal_eq]
  dsimp only
  omega

theorem payoutTransfers_sum (hpayable : Payable s.unwrapFeeBps recipients)
    (hpayee : 0 < feeTotal s.unwrapFeeBps recipients → s.feeRecipient.isSome) :
    ((payoutTransfers house underlying s recipients).map Transfer.amount).sum =
      grossTotal recipients := by
  have hfee : ((feeTransfers underlying house s.feeRecipient
      (feeTotal s.unwrapFeeBps recipients)).map Transfer.amount).sum = _ :=
    feeTransfers_sum (feeTotal_nonneg hpayable) hpayee
  have hnets : ((recipients.map fun r => (⟨.payout, underlying, house, r.1,
      netPart s.unwrapFeeBps r.2⟩ : Transfer Purpose)).map Transfer.amount).sum =
        netTotal s.unwrapFeeBps recipients := by
    rw [List.map_map]
    rfl
  rw [payoutTransfers, List.map_append, List.sum_append, hnets, hfee, netTotal_eq]
  omega

theorem UnwrappedAll.gross_paid (h : UnwrappedAll house env user underlying recipients s t) :
    ((payoutTransfers house underlying s recipients).map Transfer.amount).sum =
      grossTotal recipients := payoutTransfers_sum h.payable h.fee_paid

theorem UnwrappedAll.reserve_le (h : UnwrappedAll house env user underlying recipients s t) :
    s.reserve - grossTotal recipients ≤ t.reserve := by
  rw [h.result, ← h.gross_paid]
  exact settle_outgoing _ _ fun x hx => (payoutTransfers_mem h.payable hx).2.2

end SorobanKit.WrappedToken
