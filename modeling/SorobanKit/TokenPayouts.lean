import SorobanKit.TokenServer

set_option autoImplicit false

/-!
# Payments out of a contract's balance

Behind the gates it puts before a holder, the token makes every payment that the holder's balance
covers: one transfer, and a whole list of them made in one invocation.
-/
namespace SorobanKit.Token
open HostBalances HostInteger HostInvocation HostServers HostTransfers

/-- The gates the token puts before a holder who pays. -/
structure PaysFrom (d : Deployment) (sequence : ℕ) (source : Address) (b : State) : Prop where
  spendable : Spendable d source b
  unlocked : ∀ lockLedger, b.transferLock source = some lockLedger → lockLedger < sequence

section Payouts
variable {d : Deployment} {ctx : Context} {source target house : Address} {amount : ℤ} {b c : State}

theorem updateBalance_succeeds (b : State) (account : Address) (delta : ℤ)
    (hfits : InI128 (balance b account + delta)) (hnonneg : 0 ≤ balance b account + delta) :
    updateBalance account delta b = .ok { b with
      balance := b.balance.insert account (balance b account + delta) } := by
  simp only [updateBalance, bind_eq_ok, okOr_eq_ok, checkedAdd_eq_some, rejectIf_eq_ok, pure_eq_ok]
  exact ⟨_, ⟨hfits, rfl⟩, (), not_lt.mpr hnonneg, rfl⟩

theorem transferImpl_succeeds (hsource : InI128 (balance b source))
    (hlock : locked ctx source b = false) (hpos : 0 < amount)
    (hcovered : amount ≤ balance b source) (htarget : 0 ≤ balance b target)
    (hfits : InI128 (balance b target + amount)) :
    ∃ c, transferImpl ctx source target amount b = .ok c := by
  unfold transferImpl
  by_cases hself : source = target
  · rw [if_pos hself]
    exact ⟨b, rfl⟩
  · have hneg : InI128 (-amount) := by
      unfold InI128 at hsource ⊢
      omega
    have hdebit := updateBalance_succeeds b source (-amount)
      (by unfold InI128 at hsource ⊢; omega) (by omega)
    have hother : balance { b with
        balance := b.balance.insert source (balance b source + -amount) } target = balance b target :=
      entry_insert_of_ne _ _ (Ne.symm hself)
    have hcredit := updateBalance_succeeds { b with
        balance := b.balance.insert source (balance b source + -amount) } target amount
      (by rw [hother]; exact hfits) (by rw [hother]; omega)
    obtain ⟨c, hc⟩ : ∃ c, updateBalance target amount { b with
        balance := b.balance.insert source (balance b source + -amount) } = .ok c := ⟨_, hcredit⟩
    refine ⟨c, ?_⟩
    have hlock' : ¬ locked ctx source b = true := by simpa using hlock
    simp only [if_neg hself, bind_eq_ok, rejectIf_eq_ok, unwrap_eq_ok, checkedNeg_eq_some,
      requireNotLocked]
    exact ⟨(), not_le.mpr hpos, (), hlock', _, ⟨hneg, rfl⟩, _, hdebit, hc⟩

theorem tokenTransfer_succeeds (h : PaysFrom d ctx.sequence source b) (hsigned : source ∈ ctx.auths)
    (hsource : InI128 (balance b source)) (hpos : 0 < amount) (hcovered : amount ≤ balance b source)
    (htarget : 0 ≤ balance b target) (hfits : InI128 (balance b target + amount)) :
    ∃ c, tokenTransfer d ctx source target amount b = some c := by
  obtain ⟨hpaused, hfrozen, hblack⟩ := h.spendable
  have hlock : locked ctx source b = false := by
    unfold locked
    cases hledger : b.transferLock source with
    | none => rfl
    | some lockLedger => exact decide_eq_false (not_le.mpr (h.unlocked lockLedger hledger))
  obtain ⟨c, hc⟩ : ∃ c, transferImpl ctx source target amount b = .ok c :=
    transferImpl_succeeds hsource hlock hpos hcovered htarget hfits
  refine ⟨c, tokenTransfer_eq_some.mpr ?_⟩
  simp only [exec, transfer, bind_eq_ok, requireAuth_eq_ok, requireNotPaused, requireNotFrozen,
    requireNotBlacklisted, rejectIf_eq_ok]
  exact ⟨(), hsigned, (), hpaused, (), hfrozen, (), hblack, (), by simpa using hlock, hc⟩

theorem tokenTransfer_frame (h : tokenTransfer d ctx source target amount b = some c) :
    ∃ balances, c = { b with balance := balances } := by
  have hmoved : transferImpl ctx source target amount b = .ok c :=
    transfer_ok (tokenTransfer_eq_some.mp h)
  unfold transferImpl at hmoved
  split at hmoved
  · rw [pure_eq_ok] at hmoved
    exact ⟨b.balance, hmoved.symm⟩
  · simp only [updateBalance, bind_eq_ok, pure_eq_ok] at hmoved
    obtain ⟨_, _, _, _, _, _, _, ⟨_, _, _, _, rfl⟩, _, _, _, _, rfl⟩ := hmoved
    exact ⟨_, rfl⟩

theorem PaysFrom.transferred (hgates : PaysFrom d ctx.sequence source b) {s t : Address}
    (h : tokenTransfer d ctx s t amount b = some c) : PaysFrom d ctx.sequence source c := by
  obtain ⟨_, rfl⟩ := tokenTransfer_frame h
  exact ⟨hgates.spendable, hgates.unlocked⟩

/-- The token makes a list of payments that the payer's balance covers together. -/
theorem settle_succeeds {π : Type} {xs : List (Transfer π)} (hgates : PaysFrom d ctx.sequence house b)
    (hb : Fits b ∧ NonnegEntries b.balance)
    (hxs : ∀ x ∈ xs, x.token = d.contractAddress ∧ x.source = house ∧ 0 < x.amount)
    (hcovered : (xs.map Transfer.amount).sum ≤ balance b house)
    (hfits : ∀ x ∈ xs, InI128 (balance b x.target + (xs.map Transfer.amount).sum)) :
    ∃ c, settle (bank d) house ctx b xs = some c := by
  induction xs generalizing b with
  | nil => exact ⟨b, rfl⟩
  | cons x xs ih =>
    obtain ⟨⟨htoken, hsource, hpos⟩, hrest⟩ := List.forall_mem_cons.mp hxs
    have hsum : 0 ≤ (xs.map Transfer.amount).sum := by
      apply List.sum_nonneg
      intro v hv
      obtain ⟨y, hy, rfl⟩ := List.mem_map.mp hv
      exact le_of_lt (hrest y hy).2.2
    rw [List.map_cons, List.sum_cons] at hcovered hfits
    obtain ⟨hhere, hthere⟩ := List.forall_mem_cons.mp hfits
    have hnonneg : ∀ account, 0 ≤ balance b account := fun account => hb.2.entry_nonneg account
    have hsigned : x.source ∈ (signing house ctx x).auths := by simp [signing, hsource]
    have htarget := hnonneg x.target
    obtain ⟨m, hm⟩ : ∃ m, tokenTransfer d (signing house ctx x) x.source x.target x.amount b =
        some m := by
      refine tokenTransfer_succeeds ?_ hsigned (hb.1.balances _) hpos ?_ htarget ?_
      · rw [hsource]
        exact hgates
      · rw [hsource]
        omega
      · unfold InI128 at hhere ⊢
        omega
    have hexact := bank_exact d _ _ _ _ _ _ hm
    have hstep := tokenTransfer_eq_some.mp hm
    have hleft : balance b house - x.amount ≤ balance m house := by
      have hmoved : balance m house = balance b house + _ - _ := hexact house
      rw [hmoved, if_pos hsource]
      split <;> omega
    have hmost : ∀ account, balance m account ≤ balance b account + x.amount := by
      intro account
      have hmoved : balance m account = balance b account + _ - _ := hexact account
      rw [hmoved]
      split <;> split <;> omega
    have hgates' : PaysFrom d (signing house ctx x).sequence house b := hgates
    obtain ⟨c, hc⟩ := ih (hgates'.transferred hm) ⟨fits_step hb.1 hstep, nonneg_step hb.2 hstep⟩ hrest
      (by omega) fun y hy => by
        have hle := hmost y.target
        have hroom := hthere y hy
        have hzero : 0 ≤ balance m y.target := (nonneg_step hb.2 hstep).entry_nonneg y.target
        unfold InI128 at hroom ⊢
        omega
    refine ⟨c, ?_⟩
    have hone : settle (bank d) house ctx b [x] = some m := by
      have hbank : x.token = (bank d).address := htoken
      rw [settle_one, settleOne, if_pos hbank]
      exact hm
    rw [← List.singleton_append, settle_append, hone]
    exact hc

end Payouts

end SorobanKit.Token
