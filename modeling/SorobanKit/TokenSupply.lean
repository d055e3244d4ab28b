import Mathlib.Tactic.Linarith
import SorobanKit.TokenContract

set_option autoImplicit false

/-!
# What a call does to the balances and the supply

Eleven entry points write balances through three code paths. `SupplyMove` says once what
a returning call can do to the balances, the total supply and the cap; the invariants of
whole runs are read off it.
-/
namespace SorobanKit.Token
open HostBalances HostInteger HostInvocation

theorem updateBalance_ok {account : Address} {delta : ℤ} {s t : State}
    (h : updateBalance account delta s = .ok t) :
    0 ≤ balance s account + delta ∧
      t = { s with balance := s.balance.insert account (balance s account + delta) } := by
  simp only [updateBalance, bind_eq_ok, okOr_eq_ok, checkedAdd_eq_some, rejectIf_eq_ok,
    pure_eq_ok] at h
  obtain ⟨_, ⟨_, rfl⟩, _, hn, rfl⟩ := h
  exact ⟨by omega, rfl⟩

theorem updateBalance_total {account : Address} {delta : ℤ} {s t : State}
    (h : updateBalance account delta s = .ok t) : total t.balance = total s.balance + delta := by
  obtain ⟨_, rfl⟩ := updateBalance_ok h
  simp only [total_insert, balance]
  omega

theorem updateBalance_nonneg {account : Address} {delta : ℤ} {s t : State}
    (h : updateBalance account delta s = .ok t) (hs : NonnegEntries s.balance) :
    NonnegEntries t.balance := by
  obtain ⟨hn, rfl⟩ := updateBalance_ok h
  exact hs.insert hn

theorem sumAmounts_foldlM {entries : List (Address × ℤ)} {start n : ℤ}
    (h : entries.foldlM (fun totalAmount (x : Address × ℤ) => do
      rejectIf (x.2 ≤ 0) TokenError.invalidAmount
      okOr (checkedAdd totalAmount x.2) .overflow) start = .ok n) :
    (∀ x ∈ entries, 0 < x.2) ∧ n = start + (entries.map Prod.snd).sum := by
  induction entries generalizing start with
  | nil =>
    simp only [List.foldlM_nil, pure_eq_ok] at h
    simp [h]
  | cons x entries ih =>
    simp only [List.foldlM_cons, bind_eq_ok, rejectIf_eq_ok, okOr_eq_ok,
      checkedAdd_eq_some] at h
    obtain ⟨_, ⟨_, hx, _, rfl⟩, h⟩ := h
    obtain ⟨hpos, hn⟩ := ih h
    refine ⟨?_, ?_⟩
    · intro y hy
      rcases List.mem_cons.mp hy with rfl | hy
      · omega
      · exact hpos y hy
    · simp only [List.map_cons, List.sum_cons]
      omega

theorem sumAmounts_ok {entries : List (Address × ℤ)} {n : ℤ} (h : sumAmounts entries = .ok n) :
    (∀ x ∈ entries, 0 < x.2) ∧ n = (entries.map Prod.snd).sum := by
  obtain ⟨hpos, hn⟩ := sumAmounts_foldlM h
  exact ⟨hpos, by omega⟩

/-- The inlined credit loops write nothing but balances, and add the listed amounts. -/
theorem creditLoop_ok {entries : List (Address × ℤ)} {s t : State}
    (h : entries.foldlM (fun s (x : Address × ℤ) => creditBalance x.1 x.2 s) s = .ok t) :
    ∃ b, t = { s with balance := b } ∧ total b = total s.balance + (entries.map Prod.snd).sum ∧
      ((∀ x ∈ entries, 0 < x.2) → NonnegEntries s.balance → NonnegEntries b) := by
  induction entries generalizing s with
  | nil =>
    simp only [List.foldlM_nil, pure_eq_ok] at h
    exact ⟨s.balance, by simp [h], by simp, fun _ hs => hs⟩
  | cons x entries ih =>
    simp only [List.foldlM_cons, bind_eq_ok, creditBalance, okOr_eq_ok, checkedAdd_eq_some,
      pure_eq_ok] at h
    obtain ⟨u, ⟨_, ⟨_, rfl⟩, rfl⟩, h⟩ := h
    obtain ⟨b, rfl, htotal, hnonneg⟩ := ih h
    refine ⟨b, rfl, ?_, ?_⟩
    · rw [htotal]
      simp only [total_insert, balance, List.map_cons, List.sum_cons]
      omega
    · intro hpos hs
      refine hnonneg (fun y hy => hpos y (List.mem_cons_of_mem _ hy)) (hs.insert ?_)
      have hx := hpos x List.mem_cons_self
      have hb := hs.entry_nonneg x.1
      simp only [balance]
      omega

theorem removeTokens_ok {account : Address} {amount : ℤ} {s t : State}
    (h : removeTokens account amount s = .ok t) :
    ∃ b n, t = { s with balance := b, supply := some n } ∧
      entry b account = balance s account - amount ∧ total b = total s.balance - amount ∧
      n = totalSupply s - amount ∧ (NonnegEntries s.balance → NonnegEntries b) := by
  simp only [removeTokens, bind_eq_ok, unwrap_eq_ok, checkedNeg_eq_some, okOr_eq_ok,
    checkedSub_eq_some, pure_eq_ok] at h
  obtain ⟨_, ⟨_, rfl⟩, u, hu, _, ⟨_, rfl⟩, rfl⟩ := h
  have htotal := updateBalance_total hu
  have hnonneg := updateBalance_nonneg hu
  obtain ⟨_, rfl⟩ := updateBalance_ok hu
  refine ⟨_, _, rfl, ?_, by omega, rfl, hnonneg⟩
  rw [entry_insert_self]
  omega

/-- The calls that may create tokens. -/
def Call.isMint : Call → Bool
  | .mint _ _ => true
  | .batchMint _ => true
  | _ => false

/-- The part of a multi-recipient transfer that is debited and credited to nobody. -/
def selfListed (source : Address) (recipients : List (Address × ℤ)) : ℤ :=
  ((recipients.filter (fun x => source = x.1)).map Prod.snd).sum

def Call.lost : Call → ℤ
  | .transferToMany source recipients => selfListed source recipients
  | .transferBatch source transfers => selfListed source transfers
  | _ => 0

inductive SupplyMove (d : Deployment) (i : Invocation) (s t : State) : Prop where
  | idle (hb : t.balance = s.balance) (hs : t.supply = s.supply)
      (hm : t.maxSupply = s.maxSupply) (ha : t.admin = none → s.admin = none)
  | created (ha : s.admin = none) (hb : t.balance = s.balance) (hs : totalSupply t = 0)
      (hm : t.maxSupply = s.maxSupply ∨ ∃ cap, 0 < cap ∧ t.maxSupply = some cap)
      (hc : ∃ admin name symbol decimals maxSupply,
        i.call = .initializeToken admin name symbol decimals maxSupply)
      (ht : t.admin ≠ none)
  | minted (amount : ℤ) (hmint : i.call.isMint) (hpos : 0 ≤ amount)
      (ha : ∃ admin ∈ i.auths, s.admin = some admin)
      (hb : total t.balance = total s.balance + amount)
      (hs : totalSupply t = totalSupply s + amount) (hm : t.maxSupply = s.maxSupply)
      (hcap : ∀ cap, d.features.cappedSupply → s.maxSupply = some cap → totalSupply t ≤ cap)
      (hn : NonnegEntries s.balance → NonnegEntries t.balance) (ht : t.admin = s.admin)
  | burned (amount : ℤ) (hneg : amount ≤ 0 → ∃ spender account,
        i.call = .burnFrom spender account amount)
      (hb : total t.balance = total s.balance - amount)
      (hs : totalSupply t = totalSupply s - amount) (hm : t.maxSupply = s.maxSupply)
      (hn : NonnegEntries s.balance → NonnegEntries t.balance) (ht : t.admin = s.admin)
  | moved (hb : total t.balance = total s.balance - i.call.lost) (hlost : 0 ≤ i.call.lost)
      (hs : t.supply = s.supply) (hm : t.maxSupply = s.maxSupply)
      (hn : NonnegEntries s.balance → NonnegEntries t.balance) (ht : t.admin = s.admin)

theorem requireBelowCap_ok {d : Deployment} {amount : ℤ} {s : State} {u : Unit}
    (h : requireBelowCap d amount s = .ok u) (cap : ℤ) (hf : d.features.cappedSupply)
    (hm : s.maxSupply = some cap) : totalSupply s + amount ≤ cap := by
  simp only [requireBelowCap, hf, hm, bind_eq_ok, okOr_eq_ok, checkedAdd_eq_some,
    rejectIf_eq_ok] at h
  obtain ⟨_, ⟨_, rfl⟩, hle⟩ := h
  omega

section Guarded
variable {d : Deployment} {ctx : Context} {s t : State} {account recipient source spender : Address}
  {amount : ℤ}

theorem raiseSupply_ok (h : raiseSupply amount s = .ok t) :
    t = { s with supply := some (totalSupply s + amount) } := by
  simp only [raiseSupply, bind_eq_ok, okOr_eq_ok, checkedAdd_eq_some, pure_eq_ok] at h
  obtain ⟨_, ⟨_, rfl⟩, rfl⟩ := h
  rfl

theorem mint_ok (h : mint d ctx recipient amount s = .ok t) :
    0 < amount ∧ (∃ admin ∈ ctx.auths, s.admin = some admin) ∧
      requireBelowCap d amount s = .ok () ∧
      ∃ u, updateBalance recipient amount s = .ok u ∧ raiseSupply amount u = .ok t := by
  simp only [mint, bind_eq_ok, requireAdmin, okOr_eq_ok, requireAuth_eq_ok, rejectIf_eq_ok] at h
  obtain ⟨_, _, admin, hadmin, _, hauth, _, hpos, _, hcap, u, hu, h⟩ := h
  exact ⟨by omega, ⟨admin, hauth, hadmin⟩, hcap, u, hu, h⟩

theorem batchMint_ok {recipients : List (Address × ℤ)} (h : batchMint d ctx recipients s = .ok t) :
    (∃ admin ∈ ctx.auths, s.admin = some admin) ∧
      ∃ totalAmount u, sumAmounts recipients = .ok totalAmount ∧
        requireBelowCap d totalAmount s = .ok () ∧
        recipients.foldlM (fun s (x : Address × ℤ) => creditBalance x.1 x.2 s) s = .ok u ∧
        raiseSupply totalAmount u = .ok t := by
  simp only [batchMint, bind_eq_ok, requireAdmin, okOr_eq_ok, requireAuth_eq_ok] at h
  obtain ⟨_, _, admin, hadmin, _, hauth, totalAmount, hsum, _, hcap, u, hu, h⟩ := h
  exact ⟨⟨admin, hauth, hadmin⟩, totalAmount, u, hsum, hcap, hu, h⟩

theorem adminBurn_ok (h : adminBurn d ctx account amount s = .ok t) :
    0 < amount ∧ removeTokens account amount s = .ok t := by
  simp only [adminBurn, bind_eq_ok, rejectIf_eq_ok] at h
  obtain ⟨_, _, _, _, _, _, _, hpos, h⟩ := h
  exact ⟨by omega, h⟩

theorem burn_ok (h : burn d ctx account amount s = .ok t) :
    0 < amount ∧ removeTokens account amount s = .ok t := by
  simp only [burn, bind_eq_ok, rejectIf_eq_ok] at h
  obtain ⟨_, _, _, _, _, _, _, _, _, hpos, h⟩ := h
  exact ⟨by omega, h⟩

theorem burnFrom_ok (h : burnFrom d ctx spender account amount s = .ok t) :
    ∃ u, validateAndDeductAllowance ctx account spender amount s = .ok u ∧
      removeTokens account amount u = .ok t := by
  simp only [burnFrom, bind_eq_ok] at h
  obtain ⟨_, _, _, _, _, _, _, _, u, hu, h⟩ := h
  exact ⟨u, hu, h⟩

theorem transfer_ok (h : transfer d ctx source recipient amount s = .ok t) :
    transferImpl ctx source recipient amount s = .ok t := by
  simp only [transfer, bind_eq_ok] at h
  obtain ⟨_, _, _, _, _, _, _, _, _, _, h⟩ := h
  exact h

theorem transferFrom_ok (h : transferFrom d ctx spender source recipient amount s = .ok t) :
    ∃ u, validateAndDeductAllowance ctx source spender amount s = .ok u ∧
      transferImpl ctx source recipient amount u = .ok t := by
  simp only [transferFrom, bind_eq_ok] at h
  obtain ⟨_, _, _, _, _, _, _, _, _, _, u, hu, h⟩ := h
  exact ⟨u, hu, h⟩

theorem confiscateBlacklisted_ok (h : confiscateBlacklisted d ctx account amount s = .ok t) :
    ∃ treasury u, updateBalance account (-amount) s = .ok u ∧
      updateBalance treasury amount u = .ok t := by
  simp only [confiscateBlacklisted, gated, bind_eq_ok, unwrap_eq_ok, checkedNeg_eq_some] at h
  obtain ⟨_, _, _, _, _, _, _, _, _, _, treasury, _, _, ⟨_, rfl⟩, u, hu, h⟩ := h
  exact ⟨treasury, u, hu, h⟩

end Guarded

theorem initializeToken_ok {d : Deployment} {ctx : Context} {admin : Address}
    {name symbol : String} {decimals : ℕ} {maxSupply : Option ℤ} {s t : State}
    (h : initializeToken d ctx admin name symbol decimals maxSupply s = .ok t) :
    s.admin = none ∧ t.admin = some admin ∧ t.balance = s.balance ∧ totalSupply t = 0 ∧
      (t.maxSupply = s.maxSupply ∨ ∃ cap, 0 < cap ∧ t.maxSupply = some cap) := by
  simp only [initializeToken, bind_eq_ok, rejectIf_eq_ok, requireAuth_eq_ok] at h
  obtain ⟨_, hnone, _, _, h⟩ := h
  have ha : s.admin = none := by simpa using hnone
  split at h
  · simp only [bind_eq_ok, rejectIf_eq_ok, pure_eq_ok] at h
    obtain ⟨_, hcap, rfl⟩ := h
    exact ⟨ha, rfl, rfl, rfl, .inr ⟨_, by omega, rfl⟩⟩
  · simp only [pure_eq_ok] at h
    subst h
    exact ⟨ha, rfl, rfl, rfl, .inl rfl⟩

theorem initializeToken_move {d : Deployment} {i : Invocation} {admin : Address}
    {name symbol : String} {decimals : ℕ} {maxSupply : Option ℤ} {s t : State}
    (hc : i.call = .initializeToken admin name symbol decimals maxSupply)
    (h : initializeToken d i.toContext admin name symbol decimals maxSupply s = .ok t) :
    SupplyMove d i s t := by
  obtain ⟨ha, ht, hb, hs, hm⟩ := initializeToken_ok h
  exact .created ha hb hs hm ⟨_, _, _, _, _, hc⟩ (by simp [ht])

theorem mint_move {d : Deployment} {i : Invocation} {recipient : Address} {amount : ℤ}
    {s t : State} (hc : i.call = .mint recipient amount)
    (h : mint d i.toContext recipient amount s = .ok t) : SupplyMove d i s t := by
  obtain ⟨hpos, hadmin, hcap, u, hu, h⟩ := mint_ok h
  obtain rfl := raiseSupply_ok h
  have htotal := updateBalance_total hu
  have hnonneg := updateBalance_nonneg hu
  obtain ⟨_, rfl⟩ := updateBalance_ok hu
  exact .minted amount (by simp [hc, Call.isMint]) (by omega) hadmin htotal rfl rfl
    (fun cap hf hm => requireBelowCap_ok hcap cap hf hm) hnonneg rfl

theorem batchMint_move {d : Deployment} {i : Invocation} {recipients : List (Address × ℤ)}
    {s t : State} (hc : i.call = .batchMint recipients)
    (h : batchMint d i.toContext recipients s = .ok t) : SupplyMove d i s t := by
  obtain ⟨hadmin, totalAmount, u, hsum, hcap, hu, h⟩ := batchMint_ok h
  obtain rfl := raiseSupply_ok h
  obtain ⟨hpos, rfl⟩ := sumAmounts_ok hsum
  obtain ⟨b, rfl, htotal, hnonneg⟩ := creditLoop_ok hu
  refine .minted (recipients.map Prod.snd).sum (by simp [hc, Call.isMint]) ?_ hadmin
    htotal rfl rfl (fun cap hf hm => requireBelowCap_ok hcap cap hf hm) (hnonneg hpos) rfl
  apply List.sum_nonneg
  intro v hv
  obtain ⟨x, hx, rfl⟩ := List.mem_map.mp hv
  exact (hpos x hx).le

theorem removeTokens_move {d : Deployment} {i : Invocation} {account : Address} {amount : ℤ}
    {s u t : State}
    (hneg : amount ≤ 0 → ∃ spender account, i.call = .burnFrom spender account amount)
    (hu : ∃ a, u = { s with allowance := a }) (h : removeTokens account amount u = .ok t) :
    SupplyMove d i s t := by
  obtain ⟨a, rfl⟩ := hu
  obtain ⟨b, n, rfl, _, htotal, hsupply, hnonneg⟩ := removeTokens_ok h
  exact .burned amount hneg htotal hsupply rfl hnonneg rfl

theorem validateAndDeductAllowance_ok {ctx : Context} {owner spender : Address} {amount : ℤ}
    {s t : State} (h : validateAndDeductAllowance ctx owner spender amount s = .ok t) :
    ∃ a, t = { s with allowance := a } := by
  simp only [validateAndDeductAllowance, bind_eq_ok, rejectIf_eq_ok, unwrap_eq_ok,
    checkedSub_eq_some, pure_eq_ok] at h
  obtain ⟨_, _, _, _, rfl⟩ := h
  exact ⟨_, rfl⟩

theorem adminBurn_move {d : Deployment} {i : Invocation} {account : Address} {amount : ℤ}
    {s t : State} (h : adminBurn d i.toContext account amount s = .ok t) : SupplyMove d i s t := by
  obtain ⟨hpos, h⟩ := adminBurn_ok h
  exact removeTokens_move (fun hn => absurd hn (not_le.mpr hpos)) ⟨_, rfl⟩ h

theorem burn_move {d : Deployment} {i : Invocation} {account : Address} {amount : ℤ}
    {s t : State} (h : burn d i.toContext account amount s = .ok t) : SupplyMove d i s t := by
  obtain ⟨hpos, h⟩ := burn_ok h
  exact removeTokens_move (fun hn => absurd hn (not_le.mpr hpos)) ⟨_, rfl⟩ h

theorem burnFrom_move {d : Deployment} {i : Invocation} {spender account : Address} {amount : ℤ}
    {s t : State} (hc : i.call = .burnFrom spender account amount)
    (h : burnFrom d i.toContext spender account amount s = .ok t) : SupplyMove d i s t := by
  obtain ⟨u, hu, h⟩ := burnFrom_ok h
  exact removeTokens_move (fun _ => ⟨spender, account, hc⟩) (validateAndDeductAllowance_ok hu) h

theorem updateBalance_pair_move {d : Deployment} {i : Invocation} {source target : Address}
    {amount delta : ℤ} {s u v t : State} (hlost : i.call.lost = 0) (hdelta : delta = -amount)
    (hu : ∃ a, u = { s with allowance := a }) (hdebit : updateBalance source delta u = .ok v)
    (hcredit : updateBalance target amount v = .ok t) : SupplyMove d i s t := by
  obtain ⟨a, rfl⟩ := hu
  have hfirst := updateBalance_total hdebit
  have hsecond := updateBalance_total hcredit
  have hnonneg : NonnegEntries s.balance → NonnegEntries t.balance := fun hs =>
    updateBalance_nonneg hcredit (updateBalance_nonneg hdebit hs)
  have htotal : total t.balance = total s.balance - i.call.lost := by
    simp only at hfirst
    omega
  obtain ⟨_, rfl⟩ := updateBalance_ok hdebit
  obtain ⟨_, rfl⟩ := updateBalance_ok hcredit
  exact .moved htotal hlost.ge rfl rfl hnonneg rfl

theorem transferImpl_move {d : Deployment} {i : Invocation} {source recipient : Address}
    {amount : ℤ} {s u t : State} (hlost : i.call.lost = 0)
    (hu : ∃ a, u = { s with allowance := a })
    (h : transferImpl i.toContext source recipient amount u = .ok t) : SupplyMove d i s t := by
  unfold transferImpl at h
  split at h
  · simp only [pure_eq_ok] at h
    obtain ⟨a, rfl⟩ := hu
    subst h
    exact .idle rfl rfl rfl id
  · simp only [bind_eq_ok, unwrap_eq_ok, checkedNeg_eq_some] at h
    obtain ⟨_, _, _, _, _, ⟨_, hdelta⟩, v, hv, h⟩ := h
    exact updateBalance_pair_move hlost hdelta.symm hu hv h

theorem transfer_move {d : Deployment} {i : Invocation} {source recipient : Address} {amount : ℤ}
    {s t : State} (hc : i.call = .transfer source recipient amount)
    (h : transfer d i.toContext source recipient amount s = .ok t) : SupplyMove d i s t := by
  exact transferImpl_move (by simp [hc, Call.lost]) ⟨_, rfl⟩ (transfer_ok h)

theorem transferFrom_move {d : Deployment} {i : Invocation} {spender source recipient : Address}
    {amount : ℤ} {s t : State} (hc : i.call = .transferFrom spender source recipient amount)
    (h : transferFrom d i.toContext spender source recipient amount s = .ok t) :
    SupplyMove d i s t := by
  obtain ⟨u, hu, h⟩ := transferFrom_ok h
  exact transferImpl_move (by simp [hc, Call.lost]) (validateAndDeductAllowance_ok hu) h

theorem confiscateBlacklisted_move {d : Deployment} {i : Invocation} {account : Address}
    {amount : ℤ} {s t : State} (hc : i.call = .confiscateBlacklisted account amount)
    (h : confiscateBlacklisted d i.toContext account amount s = .ok t) : SupplyMove d i s t := by
  obtain ⟨treasury, u, hu, h⟩ := confiscateBlacklisted_ok h
  exact updateBalance_pair_move (by simp [hc, Call.lost]) rfl ⟨_, rfl⟩ hu h

theorem selfListed_split (source : Address) (recipients : List (Address × ℤ)) :
    (recipients.map Prod.snd).sum = selfListed source recipients +
      ((recipients.filter (fun x => ¬ source = x.1)).map Prod.snd).sum := by
  unfold selfListed
  induction recipients with
  | nil => rfl
  | cons x recipients ih =>
    by_cases hx : source = x.1
    · simp only [List.map_cons, List.sum_cons, List.filter_cons, hx, ih, decide_true, ↓reduceIte,
        not_true, decide_false, Bool.false_eq_true]
      rw [← hx]
      omega
    · simp only [List.map_cons, List.sum_cons, List.filter_cons, hx, ih, decide_false, ↓reduceIte,
        not_false_eq_true, decide_true, Bool.false_eq_true]
      omega

/-- The debit takes the whole total, the credits leave out what is listed for the sender. -/
theorem debitOnceCreditEach_ok {d : Deployment} {ctx : Context} {source : Address}
    {recipients : List (Address × ℤ)} {s t : State}
    (h : debitOnceCreditEach d ctx source recipients s = .ok t) :
    (∀ x ∈ recipients, 0 < x.2) ∧ ∃ b, t = { s with balance := b } ∧
      total b = total s.balance - selfListed source recipients ∧
      (NonnegEntries s.balance → NonnegEntries b) := by
  simp only [debitOnceCreditEach, bind_eq_ok, rejectIf_eq_ok, okOr_eq_ok, checkedSub_eq_some] at h
  obtain ⟨_, _, _, _, _, _, _, _, _, _, _, _, n, hsum, _, hle, _, ⟨_, rfl⟩, h⟩ := h
  rw [foldlM_skip (fun x : Address × ℤ => source = x.1)] at h
  obtain ⟨hpos, rfl⟩ := sumAmounts_ok hsum
  obtain ⟨b, rfl, htotal, hnonneg⟩ := creditLoop_ok h
  have hsplit := selfListed_split source recipients
  refine ⟨hpos, b, rfl, ?_, ?_⟩
  · simp only [total_insert, balance] at htotal
    omega
  · intro hs
    refine hnonneg (fun x hx => hpos x (List.mem_filter.mp hx).1) (hs.insert ?_)
    omega

theorem selfListed_nonneg {source : Address} {recipients : List (Address × ℤ)}
    (hpos : ∀ x ∈ recipients, 0 < x.2) : 0 ≤ selfListed source recipients := by
  apply List.sum_nonneg
  intro v hv
  obtain ⟨x, hx, rfl⟩ := List.mem_map.mp hv
  exact (hpos x (List.mem_filter.mp hx).1).le

theorem debitOnceCreditEach_move {d : Deployment} {i : Invocation} {source : Address}
    {recipients : List (Address × ℤ)} {s t : State}
    (hlost : i.call.lost = selfListed source recipients)
    (h : debitOnceCreditEach d i.toContext source recipients s = .ok t) : SupplyMove d i s t := by
  obtain ⟨hpos, b, rfl, htotal, hnonneg⟩ := debitOnceCreditEach_ok h
  exact .moved (by rw [hlost]; exact htotal) (by rw [hlost]; exact selfListed_nonneg hpos)
    rfl rfl hnonneg rfl

theorem asAdmin_ok {ctx : Context} {s t : State} {update : State → State}
    (h : asAdmin ctx s update = .ok t) :
    (∃ admin ∈ ctx.auths, s.admin = some admin) ∧ t = update s := by
  simp only [asAdmin, requireAdmin, bind_eq_ok, okOr_eq_ok, requireAuth_eq_ok, pure_eq_ok] at h
  obtain ⟨admin, ha, _, hauth, rfl⟩ := h
  exact ⟨⟨admin, hauth, ha⟩, rfl⟩

/-- Every returning call is one of the five moves. -/
theorem exec_move {d : Deployment} {i : Invocation} {s t : State} (h : exec d i s = .ok t) :
    SupplyMove d i s t := by
  unfold exec at h
  cases hc : i.call <;> simp only [hc] at h
  case initializeToken => exact initializeToken_move hc h
  case mint => exact mint_move hc h
  case batchMint => exact batchMint_move hc h
  case adminBurn => exact adminBurn_move h
  case burn => exact burn_move h
  case burnFrom => exact burnFrom_move hc h
  case transfer => exact transfer_move hc h
  case transferFrom => exact transferFrom_move hc h
  case transferToMany => exact debitOnceCreditEach_move (by simp [hc, Call.lost]) h
  case transferBatch => exact debitOnceCreditEach_move (by simp [hc, Call.lost]) h
  case confiscateBlacklisted => exact confiscateBlacklisted_move hc h
  case approve =>
    simp only [approve, bind_eq_ok, pure_eq_ok] at h
    obtain ⟨_, _, _, _, _, _, rfl⟩ := h
    exact .idle rfl rfl rfl id
  case increaseAllowance =>
    simp only [increaseAllowance, bind_eq_ok, pure_eq_ok] at h
    obtain ⟨_, _, _, _, rfl⟩ := h
    exact .idle rfl rfl rfl id
  case decreaseAllowance =>
    simp only [decreaseAllowance, bind_eq_ok, pure_eq_ok] at h
    obtain ⟨_, _, _, _, rfl⟩ := h
    exact .idle rfl rfl rfl id
  case approveWithSignature =>
    simp only [approveWithSignature, bind_eq_ok, pure_eq_ok] at h
    obtain ⟨_, _, _, _, _, _, _, _, _, _, _, _, _, _, _, _, rfl⟩ := h
    exact .idle rfl rfl rfl id
  case setPermitSigner =>
    simp only [setPermitSigner, bind_eq_ok, pure_eq_ok] at h
    obtain ⟨_, _, rfl⟩ := h
    exact .idle rfl rfl rfl id
  case cancelPermitNonce =>
    simp only [cancelPermitNonce, bind_eq_ok, pure_eq_ok] at h
    obtain ⟨_, _, rfl⟩ := h
    exact .idle rfl rfl rfl id
  case acceptAdmin =>
    simp only [acceptAdmin, bind_eq_ok, pure_eq_ok] at h
    obtain ⟨_, _, _, _, rfl⟩ := h
    exact .idle rfl rfl rfl (by simp)
  case snapshot =>
    simp only [snapshot, bind_eq_ok, pure_eq_ok] at h
    obtain ⟨_, _, rfl⟩ := h
    exact .idle rfl rfl rfl id
  case evictAllowance =>
    simp only [pure_eq_ok] at h
    subst h
    exact .idle rfl rfl rfl id
  case setAdmin =>
    obtain ⟨_, rfl⟩ := asAdmin_ok h
    exact .idle rfl rfl rfl (by simp)
  case proposeAdmin | cancelAdminProposal | setTransferLock =>
    obtain ⟨_, rfl⟩ := asAdmin_ok h
    exact .idle rfl rfl rfl id
  all_goals
    simp only [pause, unpause, freezeAccount, unfreezeAccount, blacklist, unblacklist,
      setComplianceTreasury, setTransferHook, gated, bind_eq_ok] at h
    obtain ⟨_, _, h⟩ := h
    obtain ⟨_, rfl⟩ := asAdmin_ok h
    exact .idle rfl rfl rfl id

end SorobanKit.Token
