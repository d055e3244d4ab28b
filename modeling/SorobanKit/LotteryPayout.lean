import Mathlib.Algebra.Order.BigOperators.Group.List
import SorobanKit.LotteryDraw

set_option autoImplicit false

/-!
# What a draw pays

Fee and prizes are shares of the pool rounded down, and a share that overflows is replaced by
nothing. So they add up to the pool up to less than a unit for each winner, unless a prize
overflows: then it stays in the contract.
-/
namespace SorobanKit.Lottery
open CommonMath HostBytes HostInteger HostInvocation HostTransfers

section Shares
variable {amount : ℤ} {bps : ℕ} {splits : List ℕ}

theorem share_eq (hamount : 0 ≤ amount) :
    share amount bps = if InI128 (amount * bps) then amount * bps / 10000 else 0 := by
  have hproduct : 0 ≤ amount * bps := Int.mul_nonneg hamount (Int.natCast_nonneg bps)
  unfold share applyBpsFee
  split
  · next hfits =>
    have hshare : mulDiv amount bps bpsDenominator = .ok (amount * bps / bpsDenominator) :=
      (mulDiv_eq_ok_iff hproduct (by decide)).mpr ⟨hfits, rfl⟩
    rw [hshare]
    rfl
  · next hover =>
    have hnone : mulDiv amount bps bpsDenominator = .error .overflow := by
      simp [mulDiv, bpsDenominator, checkedMul, checked, hover]
    rw [hnone]
    rfl

/-- What a share loses to rounding or overflow, in parts of ten thousand. -/
def lost (amount : ℤ) (bps : ℕ) : ℤ := amount * bps - 10000 * share amount bps

theorem share_nonneg (hamount : 0 ≤ amount) : 0 ≤ share amount bps := by
  have hproduct : 0 ≤ amount * bps := Int.mul_nonneg hamount (Int.natCast_nonneg bps)
  rw [share_eq hamount]
  split
  · omega
  · exact le_refl 0

theorem lost_nonneg (hamount : 0 ≤ amount) : 0 ≤ lost amount bps := by
  have hproduct : 0 ≤ amount * bps := Int.mul_nonneg hamount (Int.natCast_nonneg bps)
  unfold lost
  rw [share_eq hamount]
  split
  · omega
  · omega

theorem forall_lost_nonneg (hamount : 0 ≤ amount) (splits : List ℕ) :
    ∀ x ∈ splits.map (lost amount), 0 ≤ x := by
  intro x hx
  obtain ⟨bps, _, rfl⟩ := List.mem_map.mp hx
  exact lost_nonneg hamount

theorem lost_of_fits (hamount : 0 ≤ amount) (hfits : InI128 (amount * bps)) :
    lost amount bps ≤ 9999 := by
  unfold lost
  rw [share_eq hamount, if_pos hfits]
  omega

theorem lost_of_overflow (hamount : 0 ≤ amount) (hover : ¬ InI128 (amount * bps)) :
    170141183460469231731687303715884105727 < lost amount bps := by
  have hproduct : 0 ≤ amount * bps := Int.mul_nonneg hamount (Int.natCast_nonneg bps)
  unfold lost
  rw [share_eq hamount, if_neg hover]
  unfold InI128 at hover
  omega

theorem share_le (hamount : 0 ≤ amount) (hbps : bps ≤ 10000) : share amount bps ≤ amount := by
  have hlost : 0 ≤ lost amount bps := lost_nonneg hamount
  have hpart : amount * bps ≤ amount * 10000 := Int.mul_le_mul_of_nonneg_left (by omega) hamount
  unfold lost at hlost
  omega

theorem sum_shares (amount : ℤ) (splits : List ℕ) :
    10000 * (splits.map (share amount)).sum + (splits.map (lost amount)).sum =
      amount * splits.sum := by
  induction splits with
  | nil => simp
  | cons bps splits ih =>
    simp only [List.map_cons, List.sum_cons]
    rw [Nat.cast_add, mul_add, mul_add, ← ih]
    unfold lost
    omega

theorem sum_lost_le (hamount : 0 ≤ amount) (hfits : ∀ bps ∈ splits, InI128 (amount * bps)) :
    (splits.map (lost amount)).sum ≤ 9999 * splits.length := by
  induction splits with
  | nil => simp
  | cons bps splits ih =>
    obtain ⟨hbps, hrest⟩ := List.forall_mem_cons.mp hfits
    have hone := lost_of_fits hamount hbps
    have hsum := ih hrest
    simp only [List.map_cons, List.sum_cons, List.length_cons]
    omega

theorem lost_le_sum (hamount : 0 ≤ amount) (hmem : bps ∈ splits) :
    lost amount bps ≤ (splits.map (lost amount)).sum := by
  exact List.single_le_sum (forall_lost_nonneg hamount splits) _ (List.mem_map_of_mem hmem)

/-- Shares that make up a whole are no more than it, and lose less than a unit each exactly if none
    overflows. -/
theorem shares_of_whole (hamount : 0 ≤ amount) (hsum : splits.sum = 10000)
    (hlength : splits.length ≤ u32Max) :
    (splits.map (share amount)).sum ≤ amount ∧
      (amount - (splits.map (share amount)).sum < splits.length ↔
        ∀ bps ∈ splits, InI128 (amount * bps)) := by
  have hwhole := sum_shares amount splits
  rw [hsum] at hwhole
  have hnonneg : 0 ≤ (splits.map (lost amount)).sum :=
    List.sum_nonneg (forall_lost_nonneg hamount splits)
  have hpos : 0 < splits.length := by
    refine List.length_pos_iff.mpr fun hempty => ?_
    rw [hempty] at hsum
    cases hsum
  refine ⟨by omega, ?_⟩
  constructor
  · intro hless bps hmem
    by_contra hover
    have hlost := lost_of_overflow hamount hover
    have hle := lost_le_sum hamount hmem
    unfold u32Max at hlength
    omega
  · intro hfits
    have hle := sum_lost_le hamount hfits
    omega

end Shares

section Payments
variable {house token : Address} {env : Env} {ledger : Ledger} {s : State} {winners : List Address}
  {splits : List ℕ} {amount total : ℤ} {x : Transfer Purpose}

/-- What the amounts of some transfers add up to. -/
def paid (log : List (Transfer Purpose)) : ℤ := (log.map Transfer.amount).sum

theorem callTransfer_returns (hpays : ∀ log, env.tokens.Pays ledger log token house)
    (htoken : x.token = token) (hsource : x.source = house) (hnonneg : 0 ≤ x.amount)
    (hcovered : x.amount ≤ replay ledger s.transfers token house) :
    callTransfer env x s = .ok { s with transfers := s.transfers ++ [x] } := by
  exact recordTransfer_accepted (hpays s.transfers x htoken hsource hnonneg hcovered)

/-- The transfers of the prizes, in the order of the winners. -/
def prizeLog (house token : Address) (amount : ℤ) (winners : List Address) (splits : List ℕ) :
    List (Transfer Purpose) :=
  List.zipWith (fun winner split => ⟨.prize, token, house, winner, share amount split⟩) winners splits

theorem mem_prizeLog (hx : x ∈ prizeLog house token amount winners splits) :
    x.purpose = .prize ∧ x.token = token ∧ x.source = house ∧ x.target ∈ winners ∧
      ∃ split ∈ splits, x.amount = share amount split := by
  obtain ⟨i, hi, rfl⟩ := List.mem_iff_getElem.mp hx
  simp only [prizeLog, List.length_zipWith] at hi
  simp only [prizeLog, List.getElem_zipWith]
  exact ⟨trivial, trivial, trivial, List.getElem_mem _, _, List.getElem_mem _, rfl⟩

theorem paid_prizeLog (hlength : winners.length = splits.length) :
    paid (prizeLog house token amount winners splits) = (splits.map (share amount)).sum := by
  unfold paid prizeLog
  rw [List.map_zipWith]
  congr 1
  induction winners generalizing splits with
  | nil =>
    rw [List.eq_nil_of_length_eq_zero hlength.symm]
    rfl
  | cons winner winners ih =>
    cases splits with
    | nil => cases hlength
    | cons split splits =>
      rw [List.zipWith_cons_cons, List.map_cons, ih (Nat.succ.inj hlength)]

theorem payPrizes_returns (hpays : ∀ log, env.tokens.Pays ledger log token house)
    (hlength : winners.length = splits.length) (hamount : 0 ≤ amount)
    (hcovered : (splits.map (share amount)).sum ≤ replay ledger s.transfers token house) :
    (List.range splits.length).foldlM (payPrize house env token amount winners splits) s =
      .ok { s with transfers := s.transfers ++ prizeLog house token amount winners splits } := by
  let log := prizeLog house token amount winners splits
  have hlog : log.length = splits.length := by
    simp only [log, prizeLog, List.length_zipWith, hlength, Nat.min_self]
  have hout : ∀ y ∈ log, y.token = token ∧ y.source = house ∧ 0 ≤ y.amount := by
    intro y hy
    obtain ⟨_, htoken, hsource, _, split, _, heq⟩ := mem_prizeLog hy
    rw [heq]
    exact ⟨htoken, hsource, share_nonneg hamount⟩
  rw [← paid_prizeLog hlength] at hcovered
  have hstart : s = { s with transfers := s.transfers ++ log.take 0 } := by
    rw [List.take_zero, List.append_nil]
  have hstep : ∀ i t, i < splits.length → t = { s with transfers := s.transfers ++ log.take i } →
      ∃ u, payPrize house env token amount winners splits t i = .ok u ∧
        u = { s with transfers := s.transfers ++ log.take (i + 1) } := by
    intro i t hi ht
    have hwinner : i < winners.length := by omega
    have hentry : i < log.length := by omega
    obtain ⟨htoken, hsource, hnonneg⟩ := hout _ (List.getElem_mem hentry)
    have hhas : log[i].amount ≤ replay ledger t.transfers token house := by
      rw [ht]
      exact replay_covers hout hcovered hentry
    have hshape : log[i] = ⟨.prize, token, house, winners[i], share amount splits[i]⟩ := by
      simp only [log, prizeLog, List.getElem_zipWith]
    refine ⟨{ t with transfers := t.transfers ++ [log[i]] }, ?_, ?_⟩
    · simp only [payPrize, bind_eq_ok, unwrap_eq_ok]
      refine ⟨winners[i], List.getElem?_eq_getElem hwinner, splits[i], List.getElem?_eq_getElem hi, ?_⟩
      rw [← hshape]
      exact callTransfer_returns hpays htoken hsource hnonneg hhas
    · rw [ht, List.take_succ_eq_append_getElem hentry, List.append_assoc]
  obtain ⟨t, hfold, ht⟩ := foldlM_range_returns hstart hstep
  rw [hfold, ht, List.take_of_length_le hlog.le]

/-- The fee on the pool, if one is configured. -/
def feeOf (total : ℤ) (feeBps : Option ℕ) : ℤ :=
  match feeBps with
  | some bps => share total bps
  | none => 0

theorem checkFee_eq_ok {feeBps : Option ℕ} {feeRecipient : Option Address} :
    checkFee feeBps feeRecipient = .ok () ↔
      (∃ bps recipient, feeBps = some bps ∧ feeRecipient = some recipient ∧ 0 < bps ∧ bps < 10000) ∨
      (feeBps = none ∧ feeRecipient = none) := by
  cases feeBps with
  | none => cases feeRecipient <;> simp [checkFee]
  | some bps =>
    cases feeRecipient with
    | none => simp [checkFee]
    | some recipient =>
      have hvalid : ¬ ((bps : ℕ) = 0 ∨ bpsDenominator ≤ (bps : ℤ)) ↔ 0 < bps ∧ bps < 10000 := by
        unfold bpsDenominator
        omega
      simp [checkFee, hvalid]

theorem feeOf_bounds {feeBps : Option ℕ} {feeRecipient : Option Address}
    (hfee : checkFee feeBps feeRecipient = .ok ()) (htotal : 0 ≤ total) :
    0 ≤ feeOf total feeBps ∧ feeOf total feeBps ≤ total := by
  rcases checkFee_eq_ok.mp hfee with ⟨bps, _, rfl, _, _, hbps⟩ | ⟨rfl, _⟩
  · exact ⟨share_nonneg htotal, share_le htotal hbps.le⟩
  · exact ⟨le_refl 0, htotal⟩

theorem takeFee_of_send {bps : ℕ} {recipient : Address} {t : State} (hbps : s.feeBps = some bps)
    (hrecipient : s.feeRecipient = some recipient)
    (hsend : sendFee house env token recipient (share total bps) s = .ok t)
    (hrest : InI128 (total - share total bps)) :
    takeFee house env token total s = .ok (total - share total bps, t) := by
  unfold takeFee
  rw [hbps]
  simp only [bind_eq_ok, unwrap_eq_ok, pure_eq_ok, checkedSub_eq_some]
  exact ⟨recipient, hrecipient, t, hsend, _, ⟨hrest, rfl⟩, rfl⟩

theorem takeFee_returns (hpays : ∀ log, env.tokens.Pays ledger log token house)
    (hfee : checkFee s.feeBps s.feeRecipient = .ok ()) (htotal : 0 ≤ total) (hfits : InI128 total)
    (hcovered : total ≤ replay ledger s.transfers token house) :
    ∃ log, takeFee house env token total s =
        .ok (total - feeOf total s.feeBps, { s with transfers := s.transfers ++ log }) ∧
      paid log = feeOf total s.feeBps ∧
      (∀ x ∈ log, x.purpose = .fee ∧ x.token = token ∧ x.source = house) ∧
      total - feeOf total s.feeBps ≤ replay ledger (s.transfers ++ log) token house := by
  have hbounds := feeOf_bounds hfee htotal
  rcases checkFee_eq_ok.mp hfee with ⟨bps, recipient, hbps, hrecipient, _⟩ | ⟨hbps, _⟩
  · have hof : feeOf total s.feeBps = share total bps := by
      rw [hbps]
      rfl
    rw [hof] at hbounds ⊢
    have hrest : InI128 (total - share total bps) := by
      unfold InI128 at *
      omega
    by_cases hpos : 0 < share total bps
    · let x : Transfer Purpose := ⟨.fee, token, house, recipient, share total bps⟩
      have hcall : callTransfer env x s = .ok { s with transfers := s.transfers ++ [x] } :=
        callTransfer_returns hpays rfl rfl hpos.le (hbounds.2.trans hcovered)
      refine ⟨[x], takeFee_of_send hbps hrecipient ?_ hrest, ?_, ?_, ?_⟩
      · rw [sendFee, if_pos hpos]
        exact hcall
      · simp [paid, x]
      · intro y hy
        rw [List.mem_singleton.mp hy]
        exact ⟨rfl, rfl, rfl⟩
      · have hafter : replay ledger s.transfers token house - x.amount ≤
            replay ledger (s.transfers ++ [x]) token house := replay_own_payment _ _ rfl rfl hpos.le
        exact (Int.sub_le_sub_right hcovered _).trans hafter
    · have hzero : share total bps = 0 := by omega
      refine ⟨[], takeFee_of_send hbps hrecipient ?_ hrest, ?_, by simp, ?_⟩
      · rw [sendFee, if_neg hpos, List.append_nil]
        rfl
      · simp [paid, hzero]
      · rw [List.append_nil]
        omega
  · have hof : feeOf total s.feeBps = 0 := by
      rw [hbps]
      rfl
    rw [hof, Int.sub_zero]
    refine ⟨[], ?_, rfl, by simp, ?_⟩
    · unfold takeFee
      split
      · next hsome =>
        rw [hbps] at hsome
        cases hsome
      · rw [List.append_nil]
        rfl
    · rw [List.append_nil]
      exact hcovered

/-- What the transfers of a draw are: the fee and the prizes, which are shares of the rest. -/
structure Payout (house token : Address) (total : ℤ) (feeBps : Option ℕ) (splits : List ℕ)
    (winners : List Address) (log : List (Transfer Purpose)) : Prop where
  each : ∀ x ∈ log, x.token = token ∧ x.source = house ∧ (x.purpose = .fee ∨ x.target ∈ winners)
  sum : paid log =
    feeOf total feeBps + (splits.map (share (total - feeOf total feeBps))).sum

theorem distribute_returns {ticketPrice : ℤ} {totalTickets : ℕ} {firstWinner : Address}
    (hpays : ∀ log, env.tokens.Pays ledger log token house)
    (hprice : s.ticketPrice = some ticketPrice) (htoken : s.token = some token)
    (hfee : checkFee s.feeBps s.feeRecipient = .ok ()) (hfirst : winners[0]? = some firstWinner)
    (hlength : winners.length = splits.length) (hsum : splits.sum = 10000)
    (hcount : splits.length ≤ u32Max) (hpositive : 0 ≤ ticketPrice * totalTickets)
    (hfits : InI128 (ticketPrice * totalTickets))
    (hcovered : ticketPrice * totalTickets ≤ replay ledger s.transfers token house) :
    ∃ t log, distribute house env winners splits.length totalTickets splits s = .ok t ∧
      t.transfers = s.transfers ++ log ∧
      Payout house token (ticketPrice * totalTickets) s.feeBps splits winners log := by
  let drawn : State :=
    { s with state := some .drawn, winners := some winners, winner := some firstWinner }
  let rest := ticketPrice * totalTickets - feeOf (ticketPrice * totalTickets) s.feeBps
  have hbounds := feeOf_bounds hfee hpositive
  have hrest : 0 ≤ rest := Int.sub_nonneg_of_le hbounds.2
  rcases takeFee_returns (s := drawn) hpays hfee hpositive hfits hcovered with
    ⟨feeLog, htake, hpaid, hfees, hleft⟩
  have hprizes := (shares_of_whole hrest hsum hcount).1
  have hfold := payPrizes_returns (s := { drawn with transfers := drawn.transfers ++ feeLog }) hpays
    hlength hrest (hprizes.trans hleft)
  let prizes := prizeLog house token rest winners splits
  refine ⟨{ drawn with transfers := drawn.transfers ++ feeLog ++ prizes }, feeLog ++ prizes,
    ?_, ?_, ?_, ?_⟩
  · simp only [distribute, bind_eq_ok, unwrap_eq_ok, okOr_eq_ok, checkedMul_eq_some]
    exact ⟨firstWinner, hfirst, ticketPrice, hprice, _, ⟨hfits, rfl⟩, token, htoken, _, htake, hfold⟩
  · exact List.append_assoc _ _ _
  · rw [List.forall_mem_append]
    constructor
    · intro x hx
      obtain ⟨hpurpose, hat, hfrom⟩ := hfees x hx
      exact ⟨hat, hfrom, Or.inl hpurpose⟩
    · intro x hx
      obtain ⟨_, hat, hfrom, hto, _⟩ := mem_prizeLog hx
      exact ⟨hat, hfrom, Or.inr hto⟩
  · have hlog : paid (feeLog ++ prizes) = paid feeLog + paid prizes := by
      unfold paid
      rw [List.map_append, List.sum_append]
    rw [hlog, hpaid, paid_prizeLog hlength]

/-- A payout is no more than the pool, and less by under a unit a winner exactly if no prize
    overflows. -/
theorem Payout.bounds {feeBps : Option ℕ} {feeRecipient : Option Address}
    {log : List (Transfer Purpose)} (h : Payout house token total feeBps splits winners log)
    (hfee : checkFee feeBps feeRecipient = .ok ()) (htotal : 0 ≤ total) (hsum : splits.sum = 10000)
    (hcount : splits.length ≤ u32Max) :
    paid log ≤ total ∧ (total - paid log < splits.length ↔
      ∀ split ∈ splits, InI128 ((total - feeOf total feeBps) * split)) := by
  have hbounds := feeOf_bounds hfee htotal
  have hrest : 0 ≤ total - feeOf total feeBps := Int.sub_nonneg_of_le hbounds.2
  obtain ⟨hle, hiff⟩ := shares_of_whole hrest hsum hcount
  have hpaid := h.sum
  refine ⟨by omega, ?_⟩
  rw [← hiff]
  omega

/-- What fails in the distribution traps. -/
theorem distribute_eq_error {ticketPrice : ℤ} {winnerCount totalTickets : ℕ} {e : Failure LotteryError}
    (hprice : s.ticketPrice = some ticketPrice) (htoken : s.token = some token)
    (h : distribute house env winners winnerCount totalTickets splits s = .error e) : e = .trap := by
  have hcall : ∀ {x : Transfer Purpose} {t : State}, callTransfer env x t = .error e → e = .trap := by
    intro x t hx
    simp only [callTransfer, recordTransfer, bind_eq_error, trapUnless_eq_error] at hx
    rcases hx with ⟨_, rfl⟩ | ⟨_, _, hok⟩
    · rfl
    · cases hok
  simp only [distribute, bind_eq_error, unwrap_eq_error, okOr_eq_error, hprice, htoken] at h
  rcases h with ⟨_, rfl⟩ | ⟨_, _, ⟨h, _⟩ | ⟨_, _, ⟨_, rfl⟩ | ⟨_, _, ⟨h, _⟩ | ⟨_, _, h | ⟨_, _, h⟩⟩⟩⟩⟩
  · rfl
  · cases h
  · rfl
  · cases h
  · unfold takeFee at h
    split at h
    · simp only [bind_eq_error, unwrap_eq_error, sendFee] at h
      rcases h with ⟨_, rfl⟩ | ⟨_, _, h | ⟨_, _, ⟨_, rfl⟩ | ⟨_, _, h⟩⟩⟩
      · rfl
      · split at h
        · exact hcall h
        · cases h
      · rfl
      · cases h
    · cases h
  · obtain ⟨i, _, t, hround⟩ := foldlM_eq_error h
    simp only [payPrize, bind_eq_error, unwrap_eq_error] at hround
    rcases hround with ⟨_, rfl⟩ | ⟨_, _, ⟨_, rfl⟩ | ⟨_, _, hround⟩⟩
    · rfl
    · rfl
    · exact hcall hround

end Payments

end SorobanKit.Lottery
