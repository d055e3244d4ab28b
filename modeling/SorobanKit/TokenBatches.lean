import SorobanKit.TokenConservation
import SorobanKit.TokenMoney

set_option autoImplicit false

/-!
# Batches and sequences

A batch sums its amounts, checks the sum once and then credits the recipients; the single calls
check before every write. Both are brought to the same normal form: positive amounts, one bound
on the sum, and the loop of credits.
-/
namespace SorobanKit.Token
open HostBalances HostInteger HostInvocation

/-- Minting the entries one after the other. -/
def mintEach (d : Deployment) (ctx : Context) (recipients : List (Address × ℤ)) (s : State) :
    Result TokenError State :=
  recipients.foldlM (fun s (recipient, amount) => mint d ctx recipient amount s) s

/-- The single transfers in list order. -/
def transferEach (ctx : Context) (source : Address) (transfers : List (Address × ℤ)) (s : State) :
    Result TokenError State :=
  transfers.foldlM (fun s (recipient, amount) => transferImpl ctx source recipient amount s) s

/-- The loop that a batch ends with. -/
def creditEach (recipients : List (Address × ℤ)) (s : State) : Result TokenError State :=
  recipients.foldlM (fun s (recipient, amount) => creditBalance recipient amount s) s

def sumOf (recipients : List (Address × ℤ)) : ℤ := (recipients.map Prod.snd).sum

def AllPositive (recipients : List (Address × ℤ)) : Prop := ∀ x ∈ recipients, 0 < x.2

@[simp] theorem sumOf_cons (x : Address × ℤ) (recipients : List (Address × ℤ)) :
    sumOf (x :: recipients) = x.2 + sumOf recipients := by
  simp [sumOf]

@[simp] theorem allPositive_cons (x : Address × ℤ) (recipients : List (Address × ℤ)) :
    AllPositive (x :: recipients) ↔ 0 < x.2 ∧ AllPositive recipients := by
  simp [AllPositive]

theorem AllPositive.sumOf_nonneg {recipients : List (Address × ℤ)} (h : AllPositive recipients) :
    0 ≤ sumOf recipients := by
  induction recipients with
  | nil => exact le_rfl
  | cons x recipients ih =>
    rw [allPositive_cons] at h
    have hrest := ih h.2
    rw [sumOf_cons]
    omega

def State.setBalance (s : State) (account : Address) (amount : ℤ) : State :=
  { s with balance := s.balance.insert account amount }

def State.setSupply (s : State) (amount : ℤ) : State := { s with supply := some amount }

section Writes
variable (s : State) (account other : Address) (amount amount' : ℤ)

@[simp] theorem balance_setBalance_self : balance (s.setBalance account amount) account = amount :=
  entry_insert_self _ _ _

theorem balance_setBalance_of_ne (h : other ≠ account) :
    balance (s.setBalance account amount) other = balance s other :=
  entry_insert_of_ne _ _ h

@[simp] theorem totalSupply_setBalance : totalSupply (s.setBalance account amount) = totalSupply s :=
  rfl

@[simp] theorem balance_setSupply : balance (s.setSupply amount) account = balance s account := rfl

@[simp] theorem totalSupply_setSupply : totalSupply (s.setSupply amount) = amount := rfl

@[simp] theorem setSupply_setSupply :
    (s.setSupply amount).setSupply amount' = s.setSupply amount' := rfl

theorem setSupply_setBalance :
    (s.setSupply amount).setBalance account amount' =
      (s.setBalance account amount').setSupply amount := rfl

theorem setBalance_setBalance :
    (s.setBalance account amount).setBalance account amount' = s.setBalance account amount' := by
  simp [State.setBalance, Finmap.insert_insert]

theorem setBalance_comm (h : account ≠ other) :
    (s.setBalance account amount).setBalance other amount' =
      (s.setBalance other amount').setBalance account amount := by
  simp [State.setBalance, Finmap.insert_insert_of_ne _ h]

end Writes

/-- No stored balance is negative, and everything stored fits. -/
structure Sound (s : State) : Prop where
  fits : Fits s
  nonneg : ∀ account, 0 ≤ balance s account

theorem run_sound (d : Deployment) (is : List Invocation) : Sound (run d State.empty is) :=
  ⟨run_fits d is, run_nonneg d is⟩

theorem Sound.setBalance {s : State} (hs : Sound s) (account : Address) {amount : ℤ}
    (hnonneg : 0 ≤ amount) (hfits : InI128 amount) : Sound (s.setBalance account amount) := by
  refine ⟨⟨(moneyMove_insert account hfits).balances hs.fits.balances, hs.fits.supply⟩, ?_⟩
  intro other
  by_cases hother : other = account
  · rw [hother, balance_setBalance_self]
    exact hnonneg
  · rw [balance_setBalance_of_ne _ _ _ _ hother]
    exact hs.nonneg other

theorem Sound.setSupply {s : State} (hs : Sound s) {amount : ℤ} (hfits : InI128 amount) :
    Sound (s.setSupply amount) :=
  ⟨⟨hs.fits.balances, hfits⟩, hs.nonneg⟩

theorem creditBalance_iff {recipient : Address} {amount : ℤ} {s t : State} :
    creditBalance recipient amount s = .ok t ↔
      InI128 (balance s recipient + amount) ∧
        t = s.setBalance recipient (balance s recipient + amount) := by
  simp only [creditBalance, bind_eq_ok, okOr_eq_ok, checkedAdd_eq_some, pure_eq_ok]
  constructor
  · rintro ⟨_, ⟨hfits, rfl⟩, rfl⟩
    exact ⟨hfits, rfl⟩
  · rintro ⟨hfits, rfl⟩
    exact ⟨_, ⟨hfits, rfl⟩, rfl⟩

theorem creditEach_cons {x : Address × ℤ} {recipients : List (Address × ℤ)} {s t : State} :
    creditEach (x :: recipients) s = .ok t ↔
      InI128 (balance s x.1 + x.2) ∧
        creditEach recipients (s.setBalance x.1 (balance s x.1 + x.2)) = .ok t := by
  rw [creditEach, List.foldlM_cons, bind_eq_ok]
  constructor
  · rintro ⟨u, hu, hrest⟩
    obtain ⟨hfits, rfl⟩ := creditBalance_iff.mp hu
    exact ⟨hfits, hrest⟩
  · rintro ⟨hfits, hrest⟩
    exact ⟨_, creditBalance_iff.mpr ⟨hfits, rfl⟩, hrest⟩

theorem creditEach_setSupply {recipients : List (Address × ℤ)} {s t : State} {n : ℤ} :
    creditEach recipients (s.setSupply n) = .ok t ↔
      ∃ u, creditEach recipients s = .ok u ∧ t = u.setSupply n := by
  induction recipients generalizing s with
  | nil =>
    simp only [creditEach, List.foldlM_nil, pure_eq_ok]
    constructor
    · rintro rfl
      exact ⟨s, rfl, rfl⟩
    · rintro ⟨_, rfl, rfl⟩
      rfl
  | cons x recipients ih =>
    simp only [creditEach_cons, balance_setSupply, setSupply_setBalance, ih]
    constructor
    · rintro ⟨hfits, u, hu, rfl⟩
      exact ⟨u, ⟨hfits, hu⟩, rfl⟩
    · rintro ⟨u, ⟨hfits, hu⟩, rfl⟩
      exact ⟨hfits, u, hu, rfl⟩

theorem creditEach_totalSupply {recipients : List (Address × ℤ)} {s t : State}
    (h : creditEach recipients s = .ok t) : totalSupply t = totalSupply s := by
  obtain ⟨b, rfl, _⟩ := creditLoop_ok h
  rfl

theorem sumAmounts_foldlM_iff {recipients : List (Address × ℤ)} {start n : ℤ} (hstart : 0 ≤ start)
    (hfits : InI128 start) :
    recipients.foldlM (fun totalAmount (x : Address × ℤ) => do
      rejectIf (x.2 ≤ 0) TokenError.invalidAmount
      okOr (checkedAdd totalAmount x.2) .overflow) start = .ok n ↔
      AllPositive recipients ∧ InI128 (start + sumOf recipients) ∧
        n = start + sumOf recipients := by
  induction recipients generalizing start with
  | nil =>
    have hnil : start + sumOf [] = start := add_zero start
    rw [List.foldlM_nil, pure_eq_ok, hnil]
    constructor
    · rintro rfl
      exact ⟨by simp [AllPositive], hfits, rfl⟩
    · rintro ⟨_, _, rfl⟩
      rfl
  | cons x recipients ih =>
    simp only [List.foldlM_cons, bind_eq_ok, rejectIf_eq_ok, okOr_eq_ok, checkedAdd_eq_some,
      allPositive_cons, sumOf_cons, ← add_assoc]
    constructor
    · rintro ⟨_, ⟨_, hx, hnext, rfl⟩, hrest⟩
      obtain ⟨hpos, hsum, rfl⟩ := (ih (by omega) hnext).mp hrest
      exact ⟨⟨by omega, hpos⟩, hsum, rfl⟩
    · rintro ⟨⟨hx, hpos⟩, hsum, rfl⟩
      have hrest := hpos.sumOf_nonneg
      have hnext : InI128 (start + x.2) := by
        unfold InI128 at hfits hsum ⊢
        omega
      exact ⟨_, ⟨(), by omega, hnext, rfl⟩, (ih (by omega) hnext).mpr ⟨hpos, hsum, rfl⟩⟩

theorem sumAmounts_iff {recipients : List (Address × ℤ)} {n : ℤ} :
    sumAmounts recipients = .ok n ↔
      AllPositive recipients ∧ InI128 (sumOf recipients) ∧ n = sumOf recipients := by
  have hzero : InI128 0 := by decide
  rw [← zero_add (sumOf recipients)]
  exact sumAmounts_foldlM_iff le_rfl hzero

/-- The checks of the two mint entry points that no mint changes. -/
structure MintOpen (d : Deployment) (ctx : Context) (s : State) : Prop where
  running : requireNotPaused d s = .ok ()
  admin : ∃ admin ∈ ctx.auths, s.admin = some admin

def BelowCap (d : Deployment) (newSupply : ℤ) (s : State) : Prop :=
  ∀ cap, d.features.cappedSupply → s.maxSupply = some cap → newSupply ≤ cap

theorem requireBelowCap_iff {d : Deployment} {amount : ℤ} {s : State}
    (hfits : InI128 (totalSupply s + amount)) :
    requireBelowCap d amount s = .ok () ↔ BelowCap d (totalSupply s + amount) s := by
  constructor
  · intro h cap hfeature hcap
    exact requireBelowCap_ok h cap hfeature hcap
  · intro h
    unfold requireBelowCap
    split
    · next cap hfeature hcap =>
      have hle := h cap hfeature hcap
      simp only [bind_eq_ok, okOr_eq_ok, checkedAdd_eq_some, rejectIf_eq_ok]
      exact ⟨_, ⟨hfits, rfl⟩, by omega⟩
    · rfl

theorem raiseSupply_iff {amount : ℤ} {s t : State} :
    raiseSupply amount s = .ok t ↔
      InI128 (totalSupply s + amount) ∧ t = s.setSupply (totalSupply s + amount) := by
  simp only [raiseSupply, bind_eq_ok, okOr_eq_ok, checkedAdd_eq_some, pure_eq_ok]
  constructor
  · rintro ⟨_, ⟨hfits, rfl⟩, rfl⟩
    exact ⟨hfits, rfl⟩
  · rintro ⟨hfits, rfl⟩
    exact ⟨_, ⟨hfits, rfl⟩, rfl⟩

theorem updateBalance_iff {account : Address} {delta : ℤ} {s t : State} :
    updateBalance account delta s = .ok t ↔
      InI128 (balance s account + delta) ∧ 0 ≤ balance s account + delta ∧
        t = s.setBalance account (balance s account + delta) := by
  simp only [updateBalance, bind_eq_ok, okOr_eq_ok, checkedAdd_eq_some, rejectIf_eq_ok, pure_eq_ok]
  constructor
  · rintro ⟨_, ⟨hfits, rfl⟩, _, hnonneg, rfl⟩
    exact ⟨hfits, by omega, rfl⟩
  · rintro ⟨hfits, hnonneg, rfl⟩
    exact ⟨_, ⟨hfits, rfl⟩, (), by omega, rfl⟩

/-- The state after one mint. -/
def minted (recipient : Address) (amount : ℤ) (s : State) : State :=
  (s.setBalance recipient (balance s recipient + amount)).setSupply (totalSupply s + amount)

theorem mint_iff {d : Deployment} {ctx : Context} {recipient : Address} {amount : ℤ} {s t : State}
    (hs : Sound s) :
    mint d ctx recipient amount s = .ok t ↔
      MintOpen d ctx s ∧ 0 < amount ∧ BelowCap d (totalSupply s + amount) s ∧
        InI128 (totalSupply s + amount) ∧ InI128 (balance s recipient + amount) ∧
        t = minted recipient amount s := by
  have hold := hs.nonneg recipient
  simp only [mint, requireAdmin, bind_eq_ok, okOr_eq_ok, requireAuth_eq_ok, rejectIf_eq_ok]
  constructor
  · rintro ⟨_, hrunning, admin, hadmin, _, hauth, _, hpos, _, hcap, u, hu, hraise⟩
    obtain ⟨hcredit, _, rfl⟩ := updateBalance_iff.mp hu
    obtain ⟨hsupply, rfl⟩ := raiseSupply_iff.mp hraise
    exact ⟨⟨hrunning, admin, hauth, hadmin⟩, by omega, (requireBelowCap_iff hsupply).mp hcap,
      hsupply, hcredit, rfl⟩
  · rintro ⟨⟨hrunning, admin, hauth, hadmin⟩, hpos, hcap, hsupply, hcredit, rfl⟩
    exact ⟨(), hrunning, admin, hadmin, (), hauth, (), by omega, (),
      (requireBelowCap_iff hsupply).mpr hcap, _, updateBalance_iff.mpr ⟨hcredit, by omega, rfl⟩,
      raiseSupply_iff.mpr ⟨hsupply, rfl⟩⟩

theorem Sound.minted {s : State} (hs : Sound s) {recipient : Address} {amount : ℤ}
    (hpos : 0 < amount) (hsupply : InI128 (totalSupply s + amount))
    (hcredit : InI128 (balance s recipient + amount)) : Sound (minted recipient amount s) := by
  have hold := hs.nonneg recipient
  exact (hs.setBalance recipient (by omega) hcredit).setSupply hsupply

/-- What both ways of minting come down to. -/
structure Minted (d : Deployment) (ctx : Context) (recipients : List (Address × ℤ)) (s t : State) :
    Prop where
  opened : MintOpen d ctx s
  positive : AllPositive recipients
  cap : BelowCap d (totalSupply s + sumOf recipients) s
  supply : InI128 (totalSupply s + sumOf recipients)
  credited : ∃ u, creditEach recipients s = .ok u ∧
    t = u.setSupply (totalSupply s + sumOf recipients)

theorem minted_singleton {d : Deployment} {ctx : Context} {x : Address × ℤ} {s t : State} :
    Minted d ctx [x] s t ↔
      MintOpen d ctx s ∧ 0 < x.2 ∧ BelowCap d (totalSupply s + x.2) s ∧
        InI128 (totalSupply s + x.2) ∧ InI128 (balance s x.1 + x.2) ∧ t = minted x.1 x.2 s := by
  have hsum : sumOf [x] = x.2 := by simp [sumOf]
  have hpos : AllPositive [x] ↔ 0 < x.2 := by simp [AllPositive]
  constructor
  · rintro ⟨hopen, hall, hcap, hsupply, u, hu, rfl⟩
    obtain ⟨hcredit, hu⟩ := creditEach_cons.mp hu
    rw [creditEach, List.foldlM_nil, pure_eq_ok] at hu
    rw [hsum] at hcap hsupply ⊢
    rw [← hu]
    exact ⟨hopen, hpos.mp hall, hcap, hsupply, hcredit, rfl⟩
  · rintro ⟨hopen, hall, hcap, hsupply, hcredit, rfl⟩
    rw [← hsum] at hcap hsupply
    refine ⟨hopen, hpos.mpr hall, hcap, hsupply, _, creditEach_cons.mpr ⟨hcredit, rfl⟩, ?_⟩
    rw [hsum]
    rfl

/-- Minting a list is minting its head and then the rest: the bounds on the sums only have to be
    checked at the end. -/
theorem minted_cons {d : Deployment} {ctx : Context} {x : Address × ℤ}
    {recipients : List (Address × ℤ)} {s t : State} (hs : Sound s) :
    Minted d ctx (x :: recipients) s t ↔
      ∃ u, Minted d ctx [x] s u ∧ Minted d ctx recipients u t := by
  have hassoc : totalSupply (minted x.1 x.2 s) + sumOf recipients =
      totalSupply s + sumOf (x :: recipients) := by
    rw [minted, totalSupply_setSupply, sumOf_cons]
    omega
  constructor
  · rintro ⟨hopen, hall, hcap, hsupply, v, hv, rfl⟩
    obtain ⟨hpos, hall⟩ := (allPositive_cons x recipients).mp hall
    obtain ⟨hcredit, hv⟩ := creditEach_cons.mp hv
    have hrest := hall.sumOf_nonneg
    have hfirst : InI128 (totalSupply s + x.2) := by
      have hold := hs.fits.supply
      rw [sumOf_cons] at hsupply
      unfold InI128 at hold hsupply ⊢
      omega
    refine ⟨minted x.1 x.2 s, minted_singleton.mpr ⟨hopen, hpos, ?_, hfirst, hcredit, rfl⟩,
      ⟨hopen.running, hopen.admin⟩, hall, ?_, ?_, v.setSupply (totalSupply s + x.2), ?_, ?_⟩
    · intro cap hfeature hmax
      have hle := hcap cap hfeature hmax
      rw [sumOf_cons] at hle
      omega
    · rw [hassoc]
      exact hcap
    · rwa [hassoc]
    · exact creditEach_setSupply.mpr ⟨v, hv, rfl⟩
    · rw [hassoc, setSupply_setSupply]
  · rintro ⟨u, hfirst, hlater⟩
    obtain ⟨hopen, hpos, _, _, hcredit, rfl⟩ := minted_singleton.mp hfirst
    obtain ⟨_, hall, hcap, hsupply, v, hv, rfl⟩ := hlater
    rw [hassoc] at hcap hsupply ⊢
    obtain ⟨w, hw, rfl⟩ := creditEach_setSupply.mp hv
    exact ⟨hopen, (allPositive_cons x recipients).mpr ⟨hpos, hall⟩, hcap, hsupply, w,
      creditEach_cons.mpr ⟨hcredit, hw⟩, rfl⟩

theorem mintEach_iff {d : Deployment} {ctx : Context} {x : Address × ℤ}
    {recipients : List (Address × ℤ)} {s t : State} (hs : Sound s) :
    mintEach d ctx (x :: recipients) s = .ok t ↔ Minted d ctx (x :: recipients) s t := by
  induction recipients generalizing x s with
  | nil =>
    have hone : mintEach d ctx [x] s = mint d ctx x.1 x.2 s := by
      rw [mintEach, List.foldlM_cons]
      simp only [List.foldlM_nil, bind_pure]
    rw [hone, mint_iff hs, minted_singleton]
  | cons y recipients ih =>
    have hnext : mintEach d ctx (x :: y :: recipients) s =
        mint d ctx x.1 x.2 s >>= mintEach d ctx (y :: recipients) := rfl
    rw [hnext, bind_eq_ok, minted_cons hs]
    apply exists_congr
    intro u
    rw [mint_iff hs, ← minted_singleton]
    apply and_congr_right
    intro hfirst
    obtain ⟨_, hpos, _, hsupply, hcredit, rfl⟩ := minted_singleton.mp hfirst
    exact ih (hs.minted hpos hsupply hcredit)

theorem batchMint_iff {d : Deployment} {ctx : Context} {recipients : List (Address × ℤ)}
    {s t : State} :
    batchMint d ctx recipients s = .ok t ↔
      InI128 (sumOf recipients) ∧ Minted d ctx recipients s t := by
  simp only [batchMint, requireAdmin, bind_eq_ok, okOr_eq_ok, requireAuth_eq_ok]
  constructor
  · rintro ⟨_, hrunning, admin, hadmin, _, hauth, n, hn, _, hcap, u, hu, hraise⟩
    obtain ⟨hall, hsum, rfl⟩ := sumAmounts_iff.mp hn
    obtain ⟨hsupply, rfl⟩ := raiseSupply_iff.mp hraise
    rw [creditEach_totalSupply hu] at hsupply ⊢
    exact ⟨hsum, ⟨hrunning, admin, hauth, hadmin⟩, hall, (requireBelowCap_iff hsupply).mp hcap,
      hsupply, u, hu, rfl⟩
  · rintro ⟨hsum, ⟨hrunning, admin, hauth, hadmin⟩, hall, hcap, hsupply, u, hu, rfl⟩
    have hkeep := creditEach_totalSupply hu
    refine ⟨(), hrunning, admin, hadmin, (), hauth, _, sumAmounts_iff.mpr ⟨hall, hsum, rfl⟩, (),
      (requireBelowCap_iff hsupply).mpr hcap, u, hu, raiseSupply_iff.mpr ?_⟩
    rw [hkeep]
    exact ⟨hsupply, rfl⟩

theorem requireNotLocked_iff {ctx : Context} {account : Address} {s : State} {u : Unit} :
    requireNotLocked ctx account s = .ok u ↔ locked ctx account s = false := by
  simp [requireNotLocked]

/-- What both ways of paying several recipients come down to. -/
structure Sent (ctx : Context) (source : Address) (transfers : List (Address × ℤ)) (s t : State) :
    Prop where
  positive : AllPositive transfers
  unlocked : locked ctx source s = false
  covered : sumOf transfers ≤ balance s source
  credited : creditEach transfers
    (s.setBalance source (balance s source - sumOf transfers)) = .ok t

/-- The state after one transfer to somebody else. -/
def sent (source recipient : Address) (amount : ℤ) (s : State) : State :=
  (s.setBalance source (balance s source - amount)).setBalance recipient
    (balance s recipient + amount)

theorem transferImpl_iff {ctx : Context} {source recipient : Address} {amount : ℤ} {s t : State}
    (hs : Sound s) (hne : recipient ≠ source) :
    transferImpl ctx source recipient amount s = .ok t ↔
      0 < amount ∧ locked ctx source s = false ∧ amount ≤ balance s source ∧
        InI128 (balance s recipient + amount) ∧ t = sent source recipient amount s := by
  have hold := hs.nonneg recipient
  have hother : balance (s.setBalance source (balance s source - amount)) recipient =
      balance s recipient := balance_setBalance_of_ne _ _ _ _ hne
  unfold transferImpl
  rw [if_neg (Ne.symm hne)]
  simp only [bind_eq_ok, rejectIf_eq_ok, requireNotLocked_iff, unwrap_eq_ok, checkedNeg_eq_some,
    updateBalance_iff]
  constructor
  · rintro ⟨_, hpos, _, hunlocked, _, ⟨_, rfl⟩, u, ⟨_, hcovered, rfl⟩, hcredit, _, rfl⟩
    rw [← sub_eq_add_neg, hother] at hcredit
    refine ⟨by omega, hunlocked, by omega, hcredit, ?_⟩
    rw [← sub_eq_add_neg, hother]
    rfl
  · rintro ⟨hpos, hunlocked, hcovered, hcredit, rfl⟩
    have hrange := hs.fits.balances source
    have hneg : InI128 (-amount) := by
      unfold InI128 at hrange ⊢
      omega
    have hrest : InI128 (balance s source - amount) := by
      unfold InI128 at hrange ⊢
      omega
    refine ⟨(), by omega, (), hunlocked, _, ⟨hneg, rfl⟩, _, ⟨hrest, by omega, rfl⟩, ?_⟩
    rw [← sub_eq_add_neg, hother]
    exact ⟨hcredit, by omega, rfl⟩

theorem Sound.sent {s : State} (hs : Sound s) {source recipient : Address} {amount : ℤ}
    (hpos : 0 < amount) (hcovered : amount ≤ balance s source)
    (hcredit : InI128 (balance s recipient + amount)) : Sound (sent source recipient amount s) := by
  have hold := hs.nonneg recipient
  have hrange := hs.fits.balances source
  have hrest : InI128 (balance s source - amount) := by
    unfold InI128 at hrange ⊢
    omega
  exact (hs.setBalance source (by omega) hrest).setBalance recipient (by omega) hcredit

theorem sent_singleton {ctx : Context} {source : Address} {x : Address × ℤ} {s t : State}
    (hne : x.1 ≠ source) :
    Sent ctx source [x] s t ↔
      0 < x.2 ∧ locked ctx source s = false ∧ x.2 ≤ balance s source ∧
        InI128 (balance s x.1 + x.2) ∧ t = sent source x.1 x.2 s := by
  have hsum : sumOf [x] = x.2 := by simp [sumOf]
  have hpos : AllPositive [x] ↔ 0 < x.2 := by simp [AllPositive]
  have hother : balance (s.setBalance source (balance s source - x.2)) x.1 = balance s x.1 :=
    balance_setBalance_of_ne _ _ _ _ hne
  constructor
  · rintro ⟨hall, hunlocked, hcovered, ht⟩
    rw [hsum] at hcovered ht
    obtain ⟨hcredit, ht⟩ := creditEach_cons.mp ht
    rw [creditEach, List.foldlM_nil, pure_eq_ok, hother] at ht
    rw [hother] at hcredit
    exact ⟨hpos.mp hall, hunlocked, hcovered, hcredit, ht.symm⟩
  · rintro ⟨hall, hunlocked, hcovered, hcredit, rfl⟩
    refine ⟨hpos.mpr hall, hunlocked, by rwa [hsum], ?_⟩
    rw [hsum, creditEach_cons, hother]
    exact ⟨hcredit, rfl⟩

theorem sent_debit {source recipient : Address} {amount rest : ℤ} {s : State}
    (hne : recipient ≠ source) :
    (sent source recipient amount s).setBalance source rest =
      (s.setBalance source rest).setBalance recipient (balance s recipient + amount) := by
  rw [sent, setBalance_comm _ _ _ _ _ hne, setBalance_setBalance]

theorem sent_cons {ctx : Context} {source : Address} {x : Address × ℤ}
    {transfers : List (Address × ℤ)} {s t : State} (hne : x.1 ≠ source) :
    Sent ctx source (x :: transfers) s t ↔
      ∃ u, Sent ctx source [x] s u ∧ Sent ctx source transfers u t := by
  have hother : ∀ rest, balance (s.setBalance source rest) x.1 = balance s x.1 :=
    fun rest => balance_setBalance_of_ne _ _ _ _ hne
  have hleft : balance (sent source x.1 x.2 s) source = balance s source - x.2 := by
    rw [sent, balance_setBalance_of_ne _ _ _ _ (Ne.symm hne), balance_setBalance_self]
  have hdebit : (sent source x.1 x.2 s).setBalance source
      (balance (sent source x.1 x.2 s) source - sumOf transfers) =
      (s.setBalance source (balance s source - sumOf (x :: transfers))).setBalance x.1
        (balance s x.1 + x.2) := by
    rw [sent_debit hne, hleft, sumOf_cons, sub_sub]
  constructor
  · rintro ⟨hall, hunlocked, hcovered, ht⟩
    obtain ⟨hpos, hall⟩ := (allPositive_cons x transfers).mp hall
    obtain ⟨hcredit, ht⟩ := creditEach_cons.mp ht
    rw [hother] at hcredit ht
    have hrest := hall.sumOf_nonneg
    rw [sumOf_cons] at hcovered
    refine ⟨sent source x.1 x.2 s,
      (sent_singleton hne).mpr ⟨hpos, hunlocked, by omega, hcredit, rfl⟩, hall, hunlocked, ?_, ?_⟩
    · rw [hleft]
      omega
    · rw [hdebit]
      exact ht
  · rintro ⟨u, hfirst, hlater⟩
    obtain ⟨hpos, hunlocked, _, hcredit, rfl⟩ := (sent_singleton hne).mp hfirst
    obtain ⟨hall, _, hcovered, ht⟩ := hlater
    rw [hleft] at hcovered
    rw [hdebit] at ht
    refine ⟨(allPositive_cons x transfers).mpr ⟨hpos, hall⟩, hunlocked, ?_, ?_⟩
    · rw [sumOf_cons]
      omega
    · rw [creditEach_cons, hother]
      exact ⟨hcredit, ht⟩

theorem transferEach_iff {ctx : Context} {source : Address} {x : Address × ℤ}
    {transfers : List (Address × ℤ)} {s t : State} (hs : Sound s)
    (hne : ∀ y ∈ x :: transfers, y.1 ≠ source) :
    transferEach ctx source (x :: transfers) s = .ok t ↔ Sent ctx source (x :: transfers) s t := by
  induction transfers generalizing x s with
  | nil =>
    have hone : transferEach ctx source [x] s = transferImpl ctx source x.1 x.2 s := by
      rw [transferEach, List.foldlM_cons]
      simp only [List.foldlM_nil, bind_pure]
    have hx := hne x List.mem_cons_self
    rw [hone, transferImpl_iff hs hx, sent_singleton hx]
  | cons y transfers ih =>
    obtain ⟨hx, hne⟩ := List.forall_mem_cons.mp hne
    have hnext : transferEach ctx source (x :: y :: transfers) s =
        transferImpl ctx source x.1 x.2 s >>= transferEach ctx source (y :: transfers) := rfl
    rw [hnext, bind_eq_ok, sent_cons hx]
    apply exists_congr
    intro u
    rw [transferImpl_iff hs hx, ← sent_singleton hx]
    apply and_congr_right
    intro hfirst
    obtain ⟨hpos, _, hcovered, hcredit, rfl⟩ := (sent_singleton hx).mp hfirst
    exact ih (hs.sent hpos hcovered hcredit) hne

/-- The checks of the batched transfers that `transfer_impl` leaves to its callers. -/
structure TransferOpen (d : Deployment) (ctx : Context) (source : Address) (s : State) : Prop where
  auth : source ∈ ctx.auths
  running : requireNotPaused d s = .ok ()
  unfrozen : requireNotFrozen d source s = .ok ()
  listed : requireNotBlacklisted d source s = .ok ()

theorem debitOnceCreditEach_iff {d : Deployment} {ctx : Context} {source : Address}
    {transfers : List (Address × ℤ)} {s t : State} (hs : Sound s) (hnonempty : transfers ≠ [])
    (hne : ∀ x ∈ transfers, x.1 ≠ source) :
    debitOnceCreditEach d ctx source transfers s = .ok t ↔
      TransferOpen d ctx source s ∧ Sent ctx source transfers s t := by
  have hall : transfers.filter (fun x => ¬ source = x.1) = transfers :=
    List.filter_eq_self.mpr fun x hx => decide_eq_true (Ne.symm (hne x hx))
  have hloop : ∀ u : State, transfers.foldlM (fun s (x : Address × ℤ) =>
      if source = x.1 then pure s else creditBalance x.1 x.2 s) u = creditEach transfers u := by
    intro u
    rw [foldlM_skip (fun x : Address × ℤ => source = x.1), hall]
    rfl
  have hrange := hs.fits.balances source
  simp only [debitOnceCreditEach, bind_eq_ok, rejectIf_eq_ok, requireAuth_eq_ok, okOr_eq_ok,
    checkedSub_eq_some, requireNotLocked_iff, sumAmounts_iff, hloop]
  constructor
  · rintro ⟨_, hauth, _, hrunning, _, hunfrozen, _, hlisted, _, hunlocked, _, _, _,
      ⟨hpos, _, rfl⟩, _, hcovered, _, ⟨_, rfl⟩, ht⟩
    exact ⟨⟨hauth, hrunning, hunfrozen, hlisted⟩, hpos, hunlocked, by omega, ht⟩
  · rintro ⟨⟨hauth, hrunning, hunfrozen, hlisted⟩, hpos, hunlocked, hcovered, ht⟩
    have hsum := hpos.sumOf_nonneg
    have hfits : InI128 (sumOf transfers) := by
      unfold InI128 at hrange ⊢
      omega
    have hrest : InI128 (balance s source - sumOf transfers) := by
      unfold InI128 at hrange ⊢
      omega
    exact ⟨(), hauth, (), hrunning, (), hunfrozen, (), hlisted, (), hunlocked, (),
      by simpa using hnonempty, _, ⟨hpos, hfits, rfl⟩, (), by omega, _, ⟨hrest, rfl⟩, ht⟩

theorem batchMint_sequence {d : Deployment} {ctx : Context} {recipients : List (Address × ℤ)}
    {s t : State} (hs : Sound s) (hnonempty : recipients ≠ []) :
    batchMint d ctx recipients s = .ok t ↔
      mintEach d ctx recipients s = .ok t ∧ (totalSupply s < 0 → InI128 (sumOf recipients)) := by
  cases recipients with
  | nil => exact absurd rfl hnonempty
  | cons x recipients =>
    rw [batchMint_iff, mintEach_iff hs, and_comm]
    apply and_congr_right
    intro hminted
    have hsum := hminted.positive.sumOf_nonneg
    have hsupply := hminted.supply
    constructor
    · exact fun hfits _ => hfits
    · intro hfits
      by_cases hneg : totalSupply s < 0
      · exact hfits hneg
      · -- a sum on top of a supply that is not negative fits on its own
        unfold InI128 at hsupply ⊢
        omega

theorem transfers_sequence {d : Deployment} {ctx : Context} {source : Address}
    {transfers : List (Address × ℤ)} {s t : State} (hs : Sound s) (hnonempty : transfers ≠ [])
    (hne : ∀ x ∈ transfers, x.1 ≠ source) :
    debitOnceCreditEach d ctx source transfers s = .ok t ↔
      TransferOpen d ctx source s ∧ transferEach ctx source transfers s = .ok t := by
  rw [debitOnceCreditEach_iff hs hnonempty hne]
  cases transfers with
  | nil => exact absurd rfl hnonempty
  | cons x transfers => rw [transferEach_iff hs hne]

/-- In every reachable state and for every list that is not empty: a batch of mints returns, with
    the same state, exactly if the single mints do and the sum of the amounts fits an `i128`,
    which has to be asked only while the recorded supply is negative; and a batched transfer to
    others than the sender returns exactly if its own checks pass and the single transfers do. -/
theorem batch_sequence (d : Deployment) (is : List Invocation) (ctx : Context)
    (entries : List (Address × ℤ)) (hnonempty : entries ≠ []) :
    (∀ t, batchMint d ctx entries (run d State.empty is) = .ok t ↔
      mintEach d ctx entries (run d State.empty is) = .ok t ∧
        (totalSupply (run d State.empty is) < 0 → InI128 (sumOf entries))) ∧
    (∀ source, (∀ x ∈ entries, x.1 ≠ source) → ∀ t,
      (transferBatch d ctx source entries (run d State.empty is) = .ok t ↔
        TransferOpen d ctx source (run d State.empty is) ∧
          transferEach ctx source entries (run d State.empty is) = .ok t) ∧
      (transferToMany d ctx source entries (run d State.empty is) = .ok t ↔
        TransferOpen d ctx source (run d State.empty is) ∧
          transferEach ctx source entries (run d State.empty is) = .ok t)) := by
  have hs := run_sound d is
  refine ⟨fun t => batchMint_sequence hs hnonempty, fun source hne t => ?_⟩
  exact ⟨transfers_sequence hs hnonempty hne, transfers_sequence hs hnonempty hne⟩

def demoBatch : Context := { sequence := 3, auths := [demoAdmin, demoAlice] }

theorem batch_sequence_demo :
    ∃ t, transferBatch demoDeployment demoBatch demoAlice [(demoBob, 20), (demoBob, 10)]
        (run demoDeployment State.empty [demoCreate none, demoMint]) = .ok t ∧
      transferEach demoBatch demoAlice [(demoBob, 20), (demoBob, 10)]
        (run demoDeployment State.empty [demoCreate none, demoMint]) = .ok t := by
  have hequal := ((batch_sequence demoDeployment [demoCreate none, demoMint] demoBatch
    [(demoBob, 20), (demoBob, 10)] (by decide)).2 demoAlice (by decide))
  exact ⟨_, rfl, ((hequal _).1.mp rfl).2⟩

def demoPause : Invocation := { sequence := 3, auths := [demoAdmin], call := .pause }

/-- Tokens made by a negative burn before the contract is initialized. -/
def demoUnderwater : List Invocation :=
  [{ sequence := 1, auths := [demoAlice], call := .burnFrom demoAlice demoAlice (-5) },
    demoCreate none,
    { sequence := 2, auths := [demoAlice], call := .burn demoAlice 5 }]

/-- A paused contract refuses the batch and not the single transfers; and from a negative supply
    the single mints reach further than one sum. -/
theorem batch_not_sequence :
    ((∃ t, transferEach demoBatch demoAlice [(demoBob, 10)]
        (run demoDeployment State.empty [demoCreate none, demoMint, demoPause]) = .ok t) ∧
      transferBatch demoDeployment demoBatch demoAlice [(demoBob, 10)]
        (run demoDeployment State.empty [demoCreate none, demoMint, demoPause]) =
          .error (.error .unauthorized)) ∧
    ((∃ t, mintEach demoDeployment demoBatch
        [(demoBob, 170141183460469231731687303715884105727), (demoAlice, 5)]
        (run demoDeployment State.empty demoUnderwater) = .ok t) ∧
      batchMint demoDeployment demoBatch
        [(demoBob, 170141183460469231731687303715884105727), (demoAlice, 5)]
        (run demoDeployment State.empty demoUnderwater) = .error (.error .overflow)) :=
  ⟨⟨⟨_, rfl⟩, rfl⟩, ⟨_, rfl⟩, rfl⟩

end SorobanKit.Token
