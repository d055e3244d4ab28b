import SorobanKit.WrappedTokenMoves

set_option autoImplicit false

/-!
# The peg

With an underlying token that delivers what is sent, the wrapped supply stays below the tracked
total and the tracked total below the reserve, whoever the recipients are. So tokens that somebody
holds can always be unwrapped.
-/
namespace SorobanKit.WrappedToken
open CommonMath HostBalances HostInteger HostInvocation HostTransfers
open HostRuns (Entry history run_invariant_along history_mem step_preserves Along along_true)

variable {house user underlying : Address} {ledger : Ledger} {env : Env} {s t : State}
  {bps : Option ℕ} {recipients : List (Address × ℤ)}

structure Pegged (house underlying : Address) (ledger : Ledger) (s : State) : Prop where
  installed : s.admin.isSome
  wrapped_isSome : s.wrappedToken.isSome
  underlying_eq : s.underlyingToken = some underlying
  supply_le : supply s ≤ s.totalWrapped.getD 0
  total_le : s.totalWrapped.getD 0 ≤ s.reserve
  total_fits : InI128 (s.totalWrapped.getD 0)
  holdings_nonneg : NonnegEntries s.holdings
  reserve_eq : s.reserve = replay ledger s.transfers underlying house
  wrap_payee : 0 < s.wrapFeeBps.getD 0 → s.feeRecipient.isSome
  unwrap_payee : 0 < s.unwrapFeeBps.getD 0 → s.feeRecipient.isSome

theorem Pegged.total_nonneg (hs : Pegged house underlying ledger s) : 0 ≤ s.totalWrapped.getD 0 :=
  le_trans hs.holdings_nonneg.total_nonneg hs.supply_le

theorem initializeWrapper_pegged {admin wrappedToken : Address} {cap : Option ℤ}
    {wrapFeeBps unwrapFeeBps : Option ℕ} {feeRecipient : Option Address} {minAmount : Option ℤ}
    (hreserve : 0 ≤ ledger underlying house)
    (h : initializeWrapper env admin wrappedToken underlying cap wrapFeeBps unwrapFeeBps feeRecipient
      minAmount { reserve := ledger underlying house } = .ok s) :
    Pegged house underlying ledger s := by
  simp only [initializeWrapper, bind_eq_ok, rejectIf_eq_ok, requireAuth_eq_ok, pure_eq_ok] at h
  obtain ⟨_, _, _, _, _, _, _, hpayee, _, _, _, _, rfl⟩ := h
  have hrecipient : 0 < wrapFeeBps.getD 0 ∨ 0 < unwrapFeeBps.getD 0 →
      (feeRecipient.or none).isSome := by
    intro hfee
    rw [Option.or_none, Option.isSome_iff_ne_none]
    exact fun hnone => hpayee ⟨hfee, Option.isNone_iff_eq_none.mpr hnone⟩
  exact {
    installed := rfl
    wrapped_isSome := rfl
    underlying_eq := rfl
    supply_le := le_refl _
    total_le := hreserve
    total_fits := by
      change InI128 0
      decide
    holdings_nonneg := nonneg_empty
    reserve_eq := rfl
    wrap_payee := fun hfee => by
      dsimp only at hfee ⊢
      split at hfee
      · next hpos => exact hrecipient (.inl hpos)
      · exact absurd hfee (by decide)
    unwrap_payee := fun hfee => by
      dsimp only at hfee ⊢
      split at hfee
      · next hpos => exact hrecipient (.inr hpos)
      · exact absurd hfee (by decide) }

theorem moved_reserve (hhonest : env.Honest) {xs : List (Transfer Purpose)}
    (h : ∀ x ∈ xs, x.token = underlying ∧ 0 ≤ x.amount)
    (hreserve : s.reserve = replay ledger s.transfers underlying house) :
    (moved house env xs s).reserve =
      replay ledger (moved house env xs s).transfers underlying house := by
  dsimp only [moved]
  rw [settle_honest hhonest _ _ h, hreserve, replay_eq_gain, replay_eq_gain, gain_append]
  omega

theorem Pegged.wrapped (hs : Pegged house underlying ledger s) (hhonest : env.Honest)
    (huser : user ≠ house) {other : Address}
    (h : WrappedAll house env user other recipients s t) : Pegged house underlying ledger t := by
  obtain rfl : other = underlying := Option.some_inj.mp (h.loaded.symm.trans hs.underlying_eq)
  have hnet := netTotal_nonneg h.payable
  have harrived := h.reserve_le huser
  rw [hhonest _ _ hnet] at harrived
  dsimp only at harrived
  have hexact : t.reserve = replay ledger t.transfers other house := by
    obtain ⟨counted, ht⟩ := h.result
    rw [ht]
    exact moved_reserve hhonest (fun x hx => ⟨(depositTransfers_mem h.payable hx).1,
      (depositTransfers_mem h.payable hx).2.2⟩) hs.reserve_eq
  have hsupply := hs.supply_le
  have htotal := hs.total_le
  obtain ⟨counted, rfl⟩ := h.result
  exact {
    installed := hs.installed
    wrapped_isSome := hs.wrapped_isSome
    underlying_eq := hs.underlying_eq
    supply_le := by
      unfold supply at hsupply ⊢
      rw [total_creditAll, netCredits_sum, Option.getD_some]
      omega
    total_le := by
      rw [Option.getD_some]
      exact le_trans (by omega) harrived
    total_fits := h.fits
    holdings_nonneg := hs.holdings_nonneg.creditAll fun x hx => by
      obtain ⟨r, hr, rfl⟩ := List.mem_map.mp hx
      exact le_of_lt (h.payable r hr).2
    reserve_eq := hexact
    wrap_payee := hs.wrap_payee
    unwrap_payee := hs.unwrap_payee }

theorem grossTotal_nonneg (h : Payable bps recipients) : 0 ≤ grossTotal recipients := by
  have hnet := netTotal_nonneg h
  have hfee := feeTotal_nonneg h
  rw [netTotal_eq] at hnet
  omega

theorem Pegged.unwrapped (hs : Pegged house underlying ledger s) (hhonest : env.Honest)
    {other : Address} (h : UnwrappedAll house env user other recipients s t) :
    Pegged house underlying ledger t := by
  obtain rfl : other = underlying := Option.some_inj.mp (h.loaded.symm.trans hs.underlying_eq)
  have hgross := grossTotal_nonneg h.payable
  have hleft := h.reserve_le
  have hexact : t.reserve = replay ledger t.transfers other house := by
    rw [h.result]
    exact moved_reserve hhonest (fun x hx => ⟨(payoutTransfers_mem h.payable hx).1,
      (payoutTransfers_mem h.payable hx).2.2⟩) hs.reserve_eq
  have hsupply := hs.supply_le
  have htotal := hs.total_le
  have hfits := hs.total_fits
  have hcovered := h.covered
  have hheld := h.held
  have ht := h.result
  subst ht
  exact {
    installed := hs.installed
    wrapped_isSome := hs.wrapped_isSome
    underlying_eq := hs.underlying_eq
    supply_le := by
      unfold supply at hsupply ⊢
      rw [total_credit, Option.getD_some]
      omega
    total_le := by
      rw [Option.getD_some]
      exact le_trans (by omega) hleft
    total_fits := by
      unfold InI128 at hfits ⊢
      rw [Option.getD_some]
      omega
    holdings_nonneg := hs.holdings_nonneg.credit (by omega)
    reserve_eq := hexact
    wrap_payee := hs.wrap_payee
    unwrap_payee := hs.unwrap_payee }

/-- Holders only move or destroy wrapped tokens. -/
theorem Pegged.held (hs : Pegged house underlying ledger s) {holdings : Balances Address}
    (hnonneg : NonnegEntries holdings) (hle : total holdings ≤ supply s) :
    Pegged house underlying ledger { s with holdings := holdings } :=
  { hs with supply_le := le_trans hle hs.supply_le, holdings_nonneg := hnonneg }

theorem burn_pegged (hs : Pegged house underlying ledger s) {amount : ℤ}
    (h : burn env user amount s = .ok t) : Pegged house underlying ledger t := by
  simp only [burn, bind_eq_ok, requireAuth_eq_ok, trapUnless_eq_ok, pure_eq_ok] at h
  obtain ⟨_, _, _, ⟨hnonneg, hheld⟩, rfl⟩ := h
  refine hs.held (hs.holdings_nonneg.credit (by omega)) ?_
  rw [total_credit, supply]
  omega

theorem transfer_pegged (hs : Pegged house underlying ledger s) {source target : Address} {amount : ℤ}
    (h : transfer env source target amount s = .ok t) : Pegged house underlying ledger t := by
  simp only [transfer, burn, mint, bind_eq_ok, requireAuth_eq_ok, trapUnless_eq_ok, pure_eq_ok] at h
  obtain ⟨_, ⟨_, _, _, ⟨hnonneg, hheld⟩, rfl⟩, _, _, rfl⟩ := h
  have hburned : NonnegEntries (credit s.holdings source (-amount)) :=
    hs.holdings_nonneg.credit (by omega)
  refine hs.held (hburned.credit (add_nonneg (hburned.entry_nonneg target) hnonneg)) ?_
  rw [total_credit, total_credit, supply]
  omega

theorem execBatch_pegged {i : Invocation house BatchCall} (hs : Pegged house underlying ledger s)
    (hhonest : i.Honest) (h : execBatch i s = .ok t) : Pegged house underlying ledger t := by
  have houtside : ∀ user ∈ i.auths, user ≠ house := fun user hauth heq => i.outside (heq ▸ hauth)
  unfold execBatch at h
  cases hcall : i.call with
  | doWrap user recipients =>
    rw [hcall] at h
    obtain ⟨other, h⟩ := doWrap_ok h
    exact hs.wrapped hhonest (houtside user h.signed) h
  | doUnwrap user recipients =>
    rw [hcall] at h
    obtain ⟨other, h⟩ := doUnwrap_ok h
    exact hs.unwrapped hhonest h
  | transfer source target amount =>
    rw [hcall] at h
    exact transfer_pegged hs h
  | burn user amount =>
    rw [hcall] at h
    exact burn_pegged hs h
  | pause =>
    simp only [hcall, pause, bind_eq_ok, pure_eq_ok] at h
    obtain ⟨_, _, rfl⟩ := h
    exact { hs with }
  | unpause =>
    simp only [hcall, unpause, bind_eq_ok, pure_eq_ok] at h
    obtain ⟨_, _, rfl⟩ := h
    exact { hs with }
  | setWrapPaused paused =>
    simp only [hcall, setWrapPaused, bind_eq_ok, pure_eq_ok] at h
    obtain ⟨_, _, rfl⟩ := h
    exact { hs with }
  | setUnwrapPaused paused =>
    simp only [hcall, setUnwrapPaused, bind_eq_ok, pure_eq_ok] at h
    obtain ⟨_, _, rfl⟩ := h
    exact { hs with }

/-- The underlying token pays out of what the contract has. -/
def Env.PaysOut (env : Env) (ledger : Ledger) (underlying house : Address) : Prop :=
  ∀ log (x : Transfer Purpose), x.token = underlying → x.source = house → 0 ≤ x.amount →
    x.amount ≤ replay ledger log underlying house → env.accepts log x

theorem payAll_succeeds (hpays : env.PaysOut ledger underlying house)
    {xs : List ((Address × ℤ) × ℤ)} {running : ℤ} (hnonneg : ∀ x ∈ xs, 0 ≤ x.1.2 ∧ 0 ≤ x.2)
    (hcovered : (xs.map Prod.snd).sum ≤ replay ledger s.transfers underlying house)
    (hrunning : (xs.map fun x => x.1.2).sum ≤ running) (hfits : InI128 running) :
    ∃ t final, xs.foldlM (payOne house env underlying) (s, running) = .ok (t, final) ∧
      t.feeRecipient = s.feeRecipient ∧
      replay ledger s.transfers underlying house - (xs.map Prod.snd).sum ≤
        replay ledger t.transfers underlying house := by
  induction xs generalizing s running with
  | nil => exact ⟨s, running, rfl, rfl, by simp⟩
  | cons x xs ih =>
    obtain ⟨⟨hamount, hnet⟩, hrest⟩ := List.forall_mem_cons.mp hnonneg
    rw [List.map_cons, List.sum_cons] at hcovered hrunning ⊢
    have hnets : 0 ≤ (xs.map Prod.snd).sum := List.sum_nonneg fun v hv => by
      obtain ⟨y, hy, rfl⟩ := List.mem_map.mp hv
      exact (hrest y hy).2
    have hamounts : 0 ≤ (xs.map fun x => x.1.2).sum := List.sum_nonneg fun v hv => by
      obtain ⟨y, hy, rfl⟩ := List.mem_map.mp hv
      exact (hrest y hy).1
    let payment : Transfer Purpose := ⟨.payout, underlying, house, x.1.1, x.2⟩
    have haccepts : env.accepts s.transfers payment := hpays _ _ rfl rfl hnet (by
      dsimp only [payment]
      omega)
    have hcall : callTransfer house env payment s = .ok (moved house env [payment] s) :=
      callTransfer_eq_ok.mpr ⟨haccepts, rfl⟩
    have hleft : replay ledger s.transfers underlying house - x.2 ≤
        replay ledger (moved house env [payment] s).transfers underlying house :=
      @replay_own_payment _ _ _ ledger s.transfers payment rfl rfl hnet
    have hnext : InI128 (running - x.1.2) := by
      unfold InI128 at hfits ⊢
      omega
    have hsub : checkedSub running x.1.2 = some (running - x.1.2) :=
      checkedSub_eq_some.mpr ⟨hnext, rfl⟩
    obtain ⟨t, final, hall, hpayee, hfinal⟩ := ih hrest (le_trans (by omega) hleft)
      (by omega) hnext
    refine ⟨t, final, ?_, hpayee, by omega⟩
    rw [List.foldlM_cons, payOne, hcall, ok_bind, hsub]
    exact hall

/-- A fee is only charged at a positive rate. -/
theorem rate_pos_of_feeTotal {feeBps : Option ℕ} (h : 0 < feeTotal feeBps recipients) :
    0 < feeBps.getD 0 := by
  by_contra hzero
  have hnone : feeTotal feeBps recipients = 0 := by
    unfold feeTotal feePart
    rw [Nat.le_zero.mp (not_lt.mp hzero)]
    simp
  omega

theorem payFee_succeeds (hpays : env.PaysOut ledger underlying house) {fee : ℤ} (hnonneg : 0 ≤ fee)
    (hpayee : 0 < fee → s.feeRecipient.isSome)
    (hcovered : fee ≤ replay ledger s.transfers underlying house) :
    ∃ t, payFee house env underlying house fee s = .ok t := by
  unfold payFee
  split
  · next hpos =>
    obtain ⟨payee, hsome⟩ := Option.isSome_iff_exists.mp (hpayee hpos)
    rw [hsome]
    exact ⟨_, callTransfer_eq_ok.mpr ⟨hpays _ _ rfl rfl hnonneg hcovered, rfl⟩⟩
  · exact ⟨s, rfl⟩

theorem Pegged.unwrap_succeeds (hs : Pegged house underlying ledger s) {split : Split}
    (hpays : env.PaysOut ledger underlying house) (hauth : user ∈ env.auths)
    (hopen : requireUnwrapNotPaused s = .ok ())
    (hsplit : splitBatch s.unwrapFeeBps recipients = .ok split)
    (hheld : split.gross ≤ entry s.holdings user) : ∃ t, doUnwrap house env user recipients s = .ok t := by
  obtain ⟨hpayable, rfl⟩ := splitBatch_ok hsplit
  dsimp only at hheld
  have hgross := grossTotal_nonneg hpayable
  have hfee := feeTotal_nonneg hpayable
  have hnets := netTotal_eq s.unwrapFeeBps recipients
  have hmine := hs.holdings_nonneg.entry_le_total user
  have hsupply := hs.supply_le
  have htotal := hs.total_le
  have hfits := hs.total_fits
  unfold supply at hsupply
  obtain ⟨wrapped, hwrapped⟩ := Option.isSome_iff_exists.mp hs.wrapped_isSome
  have hinstalled : ¬ s.admin.isNone := by simpa using Option.isSome_iff_ne_none.mp hs.installed
  have htokens : loadTokens s = .ok (wrapped, underlying) := by
    unfold loadTokens
    rw [hwrapped, hs.underlying_eq]
    rfl
  have hsub : checkedSub (s.totalWrapped.getD 0) (grossTotal recipients) =
      some (s.totalWrapped.getD 0 - grossTotal recipients) := by
    rw [checkedSub_eq_some]
    unfold InI128 at hfits ⊢
    exact ⟨by omega, rfl⟩
  have hburn : burn env user (grossTotal recipients) s =
      .ok { s with holdings := credit s.holdings user (-grossTotal recipients) } := by
    simp only [burn, bind_eq_ok, requireAuth_eq_ok, trapUnless_eq_ok, pure_eq_ok]
    exact ⟨(), hauth, (), ⟨hgross, hheld⟩, trivial⟩
  have hsnd : ((recipients.map fun r => (r, netPart s.unwrapFeeBps r.2)).map Prod.snd).sum =
      netTotal s.unwrapFeeBps recipients := by
    rw [List.map_map]
    rfl
  have hfst : ((recipients.map fun r => (r, netPart s.unwrapFeeBps r.2)).map fun x => x.1.2).sum =
      grossTotal recipients := by
    rw [List.map_map]
    rfl
  have hreserve := hs.reserve_eq
  have hnonneg : ∀ x ∈ recipients.map (fun r => (r, netPart s.unwrapFeeBps r.2)),
      0 ≤ x.1.2 ∧ 0 ≤ x.2 := fun x hx => by
    obtain ⟨r, hr, rfl⟩ := List.mem_map.mp hx
    exact ⟨le_of_lt (hpayable r hr).1, le_of_lt (hpayable r hr).2⟩
  let burned : State := { s with holdings := credit s.holdings user (-grossTotal recipients) }
  obtain ⟨paid, final, hpay, hpayee, hleft⟩ : ∃ paid final,
      (recipients.map fun r => (r, netPart s.unwrapFeeBps r.2)).foldlM
        (payOne house env underlying) (burned, s.totalWrapped.getD 0) = .ok (paid, final) ∧ _ :=
    payAll_succeeds hpays hnonneg (by rw [hsnd]; dsimp only [burned]; omega)
      (by rw [hfst]; omega) hfits
  rw [hsnd] at hleft
  dsimp only [burned] at hleft hpayee
  have hbacked : 0 < feeTotal s.unwrapFeeBps recipients → paid.feeRecipient.isSome := fun hpos => by
    rw [hpayee]
    exact hs.unwrap_payee (rate_pos_of_feeTotal hpos)
  obtain ⟨t, hlast⟩ := payFee_succeeds hpays hfee hbacked (by omega)
  refine ⟨{ t with totalWrapped := some (s.totalWrapped.getD 0 - grossTotal recipients) }, ?_⟩
  simp only [doUnwrap, bind_eq_ok]
  refine ⟨(), rejectIf_neg hinstalled, (), hopen, _, hsplit, (), requireAuth_eq_ok.mpr hauth, _,
    htokens, _, okOr_eq_ok.mpr hsub, (), rejectIf_neg (by omega), _, hburn, (paid, final), ?_, t,
    hlast, rfl⟩
  dsimp only
  rw [zip_nets]
  exact hpay

/-- A batch moves the gross amounts: what is minted or paid out, and the fees. Nothing else moves
    the underlying token. -/
def MovesGross (underlying : Address) (e : Entry State (Invocation house BatchCall)) : Prop :=
  match e.invocation.call with
  | .doWrap user recipients =>
    netTotal e.before.wrapFeeBps recipients + feeTotal e.before.wrapFeeBps recipients =
      grossTotal recipients ∧
    ((depositTransfers house underlying user e.before recipients).map Transfer.amount).sum =
      grossTotal recipients ∧
    e.after.transfers = e.before.transfers ++
      depositTransfers house underlying user e.before recipients ∧
    e.after.holdings = creditAll e.before.holdings (netCredits e.before.wrapFeeBps recipients) ∧
    e.after.totalWrapped =
      some (e.before.totalWrapped.getD 0 + netTotal e.before.wrapFeeBps recipients)
  | .doUnwrap user recipients =>
    netTotal e.before.unwrapFeeBps recipients + feeTotal e.before.unwrapFeeBps recipients =
      grossTotal recipients ∧
    ((payoutTransfers house underlying e.before recipients).map Transfer.amount).sum =
      grossTotal recipients ∧
    e.after.transfers = e.before.transfers ++ payoutTransfers house underlying e.before recipients ∧
    e.after.holdings = credit e.before.holdings user (-grossTotal recipients) ∧
    e.after.totalWrapped = some (e.before.totalWrapped.getD 0 - grossTotal recipients)
  | _ => e.after.transfers = e.before.transfers ∧ e.after.totalWrapped = e.before.totalWrapped

theorem execBatch_movesGross {e : Entry State (Invocation house BatchCall)}
    (hs : Pegged house underlying ledger e.before)
    (h : execBatch e.invocation e.before = .ok e.after) : MovesGross underlying e := by
  have hother : ∀ other, e.before.underlyingToken = some other → other = underlying :=
    fun other hloaded => Option.some_inj.mp (hloaded.symm.trans hs.underlying_eq)
  unfold execBatch at h
  unfold MovesGross
  cases hcall : e.invocation.call with
  | doWrap user recipients =>
    rw [hcall] at h
    obtain ⟨other, h⟩ := doWrap_ok h
    obtain rfl := hother other h.loaded
    have hsplit := netTotal_eq e.before.wrapFeeBps recipients
    refine ⟨by omega, h.gross_paid, ?_⟩
    obtain ⟨counted, hafter⟩ := h.result
    rw [hafter]
    exact ⟨rfl, rfl, rfl⟩
  | doUnwrap user recipients =>
    rw [hcall] at h
    obtain ⟨other, h⟩ := doUnwrap_ok h
    obtain rfl := hother other h.loaded
    have hsplit := netTotal_eq e.before.unwrapFeeBps recipients
    refine ⟨by omega, h.gross_paid, ?_⟩
    rw [h.result]
    exact ⟨rfl, rfl, rfl⟩
  | transfer source target amount =>
    simp only [hcall, transfer, burn, mint, bind_eq_ok, requireAuth_eq_ok, trapUnless_eq_ok,
      pure_eq_ok] at h
    obtain ⟨_, ⟨_, _, _, _, rfl⟩, _, _, hafter⟩ := h
    rw [← hafter]
    exact ⟨rfl, rfl⟩
  | burn user amount =>
    simp only [hcall, burn, bind_eq_ok, pure_eq_ok] at h
    obtain ⟨_, _, _, _, hafter⟩ := h
    rw [← hafter]
    exact ⟨rfl, rfl⟩
  | pause =>
    simp only [hcall, pause, bind_eq_ok, pure_eq_ok] at h
    obtain ⟨_, _, hafter⟩ := h
    rw [← hafter]
    exact ⟨rfl, rfl⟩
  | unpause =>
    simp only [hcall, unpause, bind_eq_ok, pure_eq_ok] at h
    obtain ⟨_, _, hafter⟩ := h
    rw [← hafter]
    exact ⟨rfl, rfl⟩
  | setWrapPaused paused =>
    simp only [hcall, setWrapPaused, bind_eq_ok, pure_eq_ok] at h
    obtain ⟨_, _, hafter⟩ := h
    rw [← hafter]
    exact ⟨rfl, rfl⟩
  | setUnwrapPaused paused =>
    simp only [hcall, setUnwrapPaused, bind_eq_ok, pure_eq_ok] at h
    obtain ⟨_, _, hafter⟩ := h
    rw [← hafter]
    exact ⟨rfl, rfl⟩

/-- Supply, tracked total and reserve stay in this order, whoever holds some can unwrap it, and
    every batch moves the gross amounts. -/
theorem peg_holds {admin wrappedToken : Address} {cap : Option ℤ} {wrapFeeBps unwrapFeeBps : Option ℕ}
    {feeRecipient : Option Address} {minAmount : Option ℤ} (hreserve : 0 ≤ ledger underlying house)
    (hinit : initializeWrapper env admin wrappedToken underlying cap wrapFeeBps unwrapFeeBps
      feeRecipient minAmount { reserve := ledger underlying house } = .ok s)
    (is : List (Invocation house BatchCall)) (hhonest : ∀ i ∈ is, i.Honest) :
    (supply (runBatches s is) ≤ (runBatches s is).totalWrapped.getD 0 ∧
      (runBatches s is).totalWrapped.getD 0 ≤ (runBatches s is).reserve ∧
      (runBatches s is).reserve = replay ledger (runBatches s is).transfers underlying house) ∧
    (∀ (later : Env) user recipients split, later.PaysOut ledger underlying house →
      user ∈ later.auths → requireUnwrapNotPaused (runBatches s is) = .ok () →
      splitBatch (runBatches s is).unwrapFeeBps recipients = .ok split →
      split.gross ≤ entry (runBatches s is).holdings user →
      ∃ t, doUnwrap house later user recipients (runBatches s is) = .ok t) ∧
    ∀ e ∈ history execBatch s is, MovesGross underlying e := by
  have hstart := initializeWrapper_pegged hreserve hinit
  have hP : Along execBatch (fun _ i => i.Honest) s is :=
    ((along_true execBatch s is).and_forall hhonest).mono fun _ _ h => h.2
  have hrun : Pegged house underlying ledger (runBatches s is) :=
    run_invariant_along (fun _ _ _ hs hi h => execBatch_pegged hs hi h) hstart hP
  refine ⟨⟨hrun.supply_le, hrun.total_le, hrun.reserve_eq⟩,
    fun later user recipients split hpays hauth hopen hsplit hheld =>
      hrun.unwrap_succeeds hpays hauth hopen hsplit hheld, fun e he => ?_⟩
  obtain ⟨hs, _, hok⟩ := history_mem (fun _ _ _ hs hi h => execBatch_pegged hs hi h) hstart hP he
  exact execBatch_movesGross hs hok

def demoHouse : Address := ⟨0⟩
def demoAdmin : Address := ⟨1⟩
def demoAlice : Address := ⟨2⟩
def demoBob : Address := ⟨3⟩
def demoWrapped : Address := ⟨4⟩
def demoUnderlying : Address := ⟨5⟩

def demoLedger : Ledger := fun token holder =>
  if token = demoUnderlying ∧ holder = demoAlice then 10000 else 0

/-- An honest underlying token, at some ledger. -/
def demoEnv (sequence : ℕ) : Env where
  sequence := sequence
  auths := [demoAdmin, demoAlice]
  accepts log x := 0 ≤ x.amount ∧ x.amount ≤ replay demoLedger log x.token x.source
  delivers _ x := x.amount.toNat
  getReserve _ := none

def demoInvoke {κ : Type} (call : κ) : Invocation demoHouse κ where
  toEnv := demoEnv 1
  call := call
  outside := by decide

/-- Fees go to the contract itself. -/
def demoInstalled : State := { ({ reserve := 0 } : State) with
  admin := some demoAdmin, wrappedToken := some demoWrapped, underlyingToken := some demoUnderlying
  totalWrapped := some 0, wrapFeeBps := some 250, unwrapFeeBps := some 100
  feeRecipient := some demoHouse }

/-- Alice wraps for herself, for Bob and for the contract. -/
def demoBatches : List (Invocation demoHouse BatchCall) :=
  [demoInvoke (.doWrap demoAlice [(demoAlice, 1000), (demoBob, 77), (demoHouse, 100)]),
    demoInvoke (.transfer demoAlice demoBob 300)]

theorem demoEnv_honest (sequence : ℕ) : (demoEnv sequence).Honest :=
  fun _ _ hnonneg => Int.toNat_of_nonneg hnonneg

theorem demoEnv_paysOut (sequence : ℕ) :
    (demoEnv sequence).PaysOut demoLedger demoUnderlying demoHouse := by
  intro log x htoken hsource hnonneg hcovered
  exact decide_eq_true ⟨hnonneg, by rw [htoken, hsource]; exact hcovered⟩

theorem peg_holds_demo :
    (runBatches demoInstalled demoBatches).totalWrapped = some 1149 ∧
      supply (runBatches demoInstalled demoBatches) = 1149 ∧
      (runBatches demoInstalled demoBatches).reserve = 1177 ∧
      ∃ t, doUnwrap demoHouse (demoEnv 2) demoAlice [(demoBob, 500), (demoHouse, 175)]
        (runBatches demoInstalled demoBatches) = .ok t := by
  have hreserve : 0 ≤ demoLedger demoUnderlying demoHouse := by decide
  have hinit : initializeWrapper (demoEnv 1) demoAdmin demoWrapped demoUnderlying none (some 250)
      (some 100) (some demoHouse) none { reserve := demoLedger demoUnderlying demoHouse } =
        .ok demoInstalled := rfl
  have hhonest : ∀ i ∈ demoBatches, i.Honest := by
    intro i hi
    obtain rfl | rfl : i = _ ∨ i = _ := by simpa [demoBatches] using hi
    · exact demoEnv_honest 1
    · exact demoEnv_honest 1
  obtain ⟨_, hunwrap, _⟩ := peg_holds hreserve hinit demoBatches hhonest
  refine ⟨by decide +kernel, by decide +kernel, by decide +kernel, ?_⟩
  exact hunwrap (demoEnv 2) demoAlice [(demoBob, 500), (demoHouse, 175)] ⟨675, 6, [495, 174]⟩
    (demoEnv_paysOut 2) (by decide) (by decide +kernel) (by decide +kernel) (by decide +kernel)

end SorobanKit.WrappedToken
