import SorobanKit.OracleBonds
import SorobanKit.TokenServer

set_option autoImplicit false

/-!
# The bonds next to the repository's token

As long as the admin names the token of this repository and no other, the bonds are entries of
that token's storage: all of them together are covered by the balance the token keeps for the
oracle. A balance fits, so bonds never reach the bound of their type, and nothing of them is lost.
-/
namespace SorobanKit.OracleBonds
open HostBalances HostInteger HostInvocation HostServers HostTransfers
open HostRuns (Along Entry history history_invariant_along)

def client (house : Address) : Client Purpose State Invocation (Failure BondError) where
  house := house
  exec := exec house
  log := State.transfers
  context i := i.toContext
  replies i := i.tokens
  answered replies i := { i with tokens := replies }

/-- The admin names no other token. -/
def NamesToken (token : Address) (_ : State) (i : Invocation) : Prop :=
  ∀ admin tokenContract insuranceFund,
    i.call = .configureBonding admin tokenContract insuranceFund → tokenContract = token

theorem client_lawful (house token : Address) : (client house).Lawful (NamesToken token) := by
  intro replies i s t _ h
  cases exec_outcome h with
  | kept hregister hslash hbonds hlog => exact .of_eq hlog
  | posted publisher token bond hcall hauth hpos htoken haccepts hbonds hlog =>
    change Grown replies s.transfers t.transfers
    rw [hlog]
    exact .one haccepts
  | slashed publisher token fund admin penalty hcall hadmin hauth hpos hcovered htoken hfund haccepts
      hbonds hlog =>
    change Grown replies s.transfers t.transfers
    rw [hlog]
    exact .one haccepts

section Steps
variable {house token : Address} {i : Invocation} {s t : State}

theorem bondToken_step (hs : ∀ named ∈ s.bondToken, named = token) (hi : NamesToken token s i)
    (h : exec house i s = .ok t) : ∀ named ∈ t.bondToken, named = token := by
  unfold exec at h
  cases hcall : i.call with
  | feed call =>
    simp only [hcall, execFeed, bind_eq_ok, pure_eq_ok] at h
    obtain ⟨_, _, rfl⟩ := h
    exact hs
  | configureBonding admin tokenContract insuranceFund =>
    simp only [hcall, configureBonding, bind_eq_ok, pure_eq_ok] at h
    obtain ⟨_, _, rfl⟩ := h
    intro named hnamed
    obtain rfl : tokenContract = named := Option.some.inj hnamed
    exact hi _ _ _ hcall
  | registerPublisher publisher bond =>
    simp only [hcall, registerPublisher, callTransfer, recordTransfer_eq_ok, bind_eq_ok,
      pure_eq_ok] at h
    obtain ⟨_, _, _, _, _, _, _, ⟨_, rfl⟩, rfl⟩ := h
    exact hs
  | slashPublisher publisher penalty =>
    simp only [hcall, slashPublisher, callTransfer, recordTransfer_eq_ok, bind_eq_ok,
      pure_eq_ok] at h
    obtain ⟨_, _, _, _, _, _, _, _, _, _, _, _, _, ⟨_, rfl⟩, rfl⟩ := h
    exact hs

/-- The contract gains at least what the bonds together grow by. -/
theorem Outcome.covers (h : Outcome house i s t) (hhouse : house ∉ i.auths)
    (hs : NonnegEntries s.publisherBond) (htoken : ∀ named ∈ s.bondToken, named = token)
    (hcovered : total s.publisherBond ≤ gain token house s.transfers) :
    total t.publisherBond ≤ gain token house t.transfers := by
  cases h with
  | kept hregister hslash hbonds hlog =>
    rw [hbonds, hlog]
    exact hcovered
  | posted publisher named bond hcall hauth hpos hnamed haccepts hbonds hlog =>
    obtain rfl := htoken named hnamed
    have hother : publisher ≠ house := by
      rintro rfl
      exact hhouse hauth
    have hhad := hs.entry_nonneg publisher
    have hadded : saturatingAdd (entry s.publisherBond publisher) bond.val ≤
        entry s.publisherBond publisher + bond.val := by
      unfold saturatingAdd
      rw [saturate_of_nonneg (by omega)]
      exact min_le_left _ _
    rw [hbonds, hlog, total_insert, gain_append, gain_incoming _ _ hother]
    omega
  | slashed publisher named fund admin penalty hcall hadmin hauth hpos hheld hnamed hfund haccepts
      hbonds hlog =>
    obtain rfl := htoken named hnamed
    have hpaid : -penalty.val ≤ gain named house
        [⟨Purpose.penalty, named, house, fund, penalty.val⟩] := by
      by_cases hfund : fund = house
      · rw [hfund, gain_to_itself]
        omega
      · rw [gain_outgoing _ _ hfund]
    rw [hbonds, hlog, total_insert, gain_append]
    omega

theorem Outcome.bondFits (h : Outcome house i s t) (hhouse : house ∉ i.auths)
    (hs : NonnegEntries s.publisherBond) (htoken : ∀ named ∈ s.bondToken, named = token)
    (hcovered : total s.publisherBond ≤ gain token house s.transfers)
    (hbefore : gain token house s.transfers ≤ 170141183460469231731687303715884105727)
    (hafter : gain token house t.transfers ≤ 170141183460469231731687303715884105727) (p : Address) :
    BondFits s i.call p := by
  have hhad := hs.entry_nonneg p
  have hmost := hs.entry_le_total p
  have hwithout : i.call.posts p = 0 → BondFits s i.call p := by
    intro hzero
    unfold BondFits InI128
    omega
  cases h with
  | kept hregister => exact hwithout (posts_of_kept hregister)
  | slashed publisher named fund admin penalty hcall => exact hwithout (by simp only [hcall, Call.posts])
  | posted publisher named bond hcall hauth hpos hnamed haccepts hbonds hlog =>
    obtain rfl := htoken named hnamed
    have hother : publisher ≠ house := by
      rintro rfl
      exact hhouse hauth
    rw [hlog, gain_append, gain_incoming _ _ hother] at hafter
    unfold BondFits InI128
    simp only [hcall, Call.posts]
    split <;> omega

end Steps

section Joint
variable {house : Address} {dt : Token.Deployment}

/-- Both contracts, and a call of somebody on one of them. -/
abbrev Joint := State × Token.State
abbrev Act := JointCall Invocation Token.Invocation

def jointly (house : Address) (dt : Token.Deployment) : Act → Joint → Except Unit Joint :=
  jointExec (client house) (Token.bank dt) (Token.exec dt)

/-- The bonds are in this token, and no call on it seizes what the oracle holds. -/
def Fair (house : Address) (dt : Token.Deployment) : Joint → Act → Prop :=
  Token.Fair dt (client house) (NamesToken dt.contractAddress)

/-- What an act posts for a publisher and takes from it. -/
def posts (p : Address) : Act → ℤ
  | .client i => i.call.posts p
  | .bank _ => 0

def takes (p : Address) : Act → ℤ
  | .client i => i.call.takes p
  | .bank _ => 0

def jointPosted (p : Address) (past : List (Entry Joint Act)) : ℤ :=
  (past.map fun e => posts p e.invocation).sum

def jointTaken (p : Address) (past : List (Entry Joint Act)) : ℤ :=
  (past.map fun e => takes p e.invocation).sum

/-- The oracle's books next to the token they are in. -/
structure Booked (house : Address) (dt : Token.Deployment) (past : List (Entry Joint Act))
    (y : Joint) : Prop where
  unapproved : Token.Unapproved house y.2
  sound : Token.Fits y.2 ∧ NonnegEntries y.2.balance
  nonneg : NonnegEntries y.1.publisherBond
  token : ∀ named ∈ y.1.bondToken, named = dt.contractAddress
  covered : total y.1.publisherBond ≤ gain dt.contractAddress house y.1.transfers
  held : gain dt.contractAddress house y.1.transfers ≤ Token.balance y.2 house
  accounted : ∀ p, entry y.1.publisherBond p + jointTaken p past = jointPosted p past

theorem booked_step {past : List (Entry Joint Act)} {y z : Joint} {j : Act}
    (hy : Booked house dt past y) (hj : Fair house dt y j) (hok : jointly house dt j y = .ok z) :
    Booked house dt (past ++ [⟨y, j, z⟩]) z := by
  obtain ⟨s, b⟩ := y
  obtain ⟨hunapproved, hmore⟩ :=
    Token.house_step (client_lawful house dt.contractAddress) dt hy.unapproved hj hok
  have hone : Along (jointly house dt) (Fair house dt) (s, b) [j] := ⟨hj, trivial⟩
  have hsound : Token.Fits z.2 ∧ NonnegEntries z.2.balance :=
    Token.joint_sound (client_lawful house dt.contractAddress) dt hy.sound hone
      (HostRuns.run_cons_of_ok hok [])
  have hheld : gain dt.contractAddress house z.1.transfers ≤ Token.balance z.2 house := by
    have hold : gain dt.contractAddress house s.transfers ≤ Token.balance b house := hy.held
    have hgained : Token.balance b house + gain dt.contractAddress house z.1.transfers ≤
      Token.balance z.2 house + gain dt.contractAddress house s.transfers := hmore
    omega
  have hposted : ∀ p, jointPosted p (past ++ [⟨(s, b), j, z⟩]) = jointPosted p past + posts p j := by
    intro p
    simp [jointPosted]
  have htaken : ∀ p, jointTaken p (past ++ [⟨(s, b), j, z⟩]) = jointTaken p past + takes p j := by
    intro p
    simp [jointTaken]
  cases j with
  | bank j =>
    obtain ⟨heq, _⟩ := jointExec_bank hok
    refine ⟨hunapproved, hsound, ?_, ?_, ?_, hheld, fun p => ?_⟩
    · rw [heq]
      exact hy.nonneg
    · rw [heq]
      exact hy.token
    · rw [heq]
      exact hy.covered
    · rw [hposted, htaken, heq]
      simpa [posts, takes] using hy.accounted p
  | client i =>
    obtain ⟨hnames, _, hhouse⟩ := hj
    obtain ⟨hexec, _⟩ := jointExec_client (client_lawful house dt.contractAddress) hnames hok
    have houtcome : Outcome house _ s z.1 := exec_outcome hexec
    have hcovered := houtcome.covers hhouse hy.nonneg hy.token hy.covered
    refine ⟨hunapproved, hsound, houtcome.nonneg hy.nonneg, bondToken_step hy.token hnames hexec,
      hcovered, hheld, fun p => ?_⟩
    have hbefore := (hy.sound.1.balances house).2
    have hafter := (hsound.1.balances house).2
    have hfits := houtcome.bondFits hhouse hy.nonneg hy.token hy.covered (le_trans hy.held hbefore)
      (le_trans hheld hafter) p
    have hbooks : entry z.1.publisherBond p + takes p (.client i) =
        entry s.publisherBond p + posts p (.client i) := (houtcome.books hy.nonneg p).2 hfits
    have hpast : entry s.publisherBond p + jointTaken p past = jointPosted p past := hy.accounted p
    rw [hposted, htaken]
    omega

end Joint

/-- Whatever else happens on both contracts, the bonds together are covered by the balance that
    the token's storage has for the oracle, and every bond is exactly what its publisher posted
    less the penalties taken from it. -/
theorem bonds_backed_by_token (house : Address) (dt : Token.Deployment)
    (before : List Token.Invocation) (hbefore : ∀ i ∈ before, Token.OnlyTransfers house i)
    (js : List Act)
    (hfair : Along (jointly house dt) (Fair house dt) ({}, Token.run dt Token.State.empty before) js)
    (y : Joint)
    (hy : HostRuns.run (jointly house dt) ({}, Token.run dt Token.State.empty before) js = y) :
    total y.1.publisherBond ≤ Token.balance y.2 house ∧
      ∀ p, entry y.1.publisherBond p + jointTaken p
          (history (jointly house dt) ({}, Token.run dt Token.State.empty before) js) =
        jointPosted p (history (jointly house dt) ({}, Token.run dt Token.State.empty before) js) := by
  have hsound := Token.run_fits dt before
  have hnonneg : NonnegEntries (Token.run dt Token.State.empty before).balance :=
    HostRuns.run_invariant (fun _ _ _ hs h => Token.nonneg_step hs h) nonneg_empty before
  have hstart : Booked house dt [] (({} : State), Token.run dt Token.State.empty before) :=
    { unapproved := Token.run_unapproved hbefore
      sound := ⟨hsound, hnonneg⟩
      nonneg := nonneg_empty
      token := fun named hnone => by simp at hnone
      covered := le_refl _
      held := Token.run_nonneg dt before house
      accounted := fun _ => rfl }
  have hbooked := history_invariant_along (I := Booked house dt)
    (fun _ _ _ _ hs hj hok => booked_step hs hj hok) hstart hfair
  rw [hy] at hbooked
  exact ⟨le_trans hbooked.covered hbooked.held, hbooked.accounted⟩

def demoOracle : Address := ⟨0⟩
def demoAdmin : Address := ⟨1⟩
def demoPublisher : Address := ⟨2⟩
def demoFund : Address := ⟨3⟩

def demoBank : Token.Deployment := { Token.demoDeployment with contractAddress := ⟨5⟩ }

def demoIssued : List Token.Invocation :=
  [{ sequence := 1, auths := [demoAdmin], call := .initializeToken demoAdmin "Demo" "DMO" 7 none },
    { sequence := 2, auths := [demoAdmin], call := .mint demoPublisher 1000 }]

theorem demoBond_fits : InI128 300 := by decide
theorem demoPenalty_fits : InI128 120 := by decide

def demoBond : I128 := ⟨300, demoBond_fits⟩
def demoPenalty : I128 := ⟨120, demoPenalty_fits⟩

/-- The replies are the token's own. -/
def demoInvoke (signer : Address) (call : Call) : Invocation where
  sequence := 5
  auths := [signer]
  timestamp := 50
  tokens := ⟨fun _ _ => 0, fun _ _ => false, fun _ => false⟩
  call := call

/-- A bond is posted, its publisher spends on the token, and a penalty is taken. -/
def demoActs : List Act :=
  [.client (demoInvoke demoAdmin (.feed (.initializeFeed demoAdmin 10))),
    .client (demoInvoke demoAdmin (.configureBonding demoAdmin ⟨5⟩ demoFund)),
    .client (demoInvoke demoPublisher (.registerPublisher demoPublisher demoBond)),
    .bank { sequence := 6, auths := [demoPublisher], call := .transfer demoPublisher demoFund 50 },
    .client (demoInvoke demoAdmin (.slashPublisher demoPublisher demoPenalty))]

theorem bonds_backed_by_token_demo :
    let y := HostRuns.run (jointly demoOracle demoBank)
      ({}, Token.run demoBank Token.State.empty demoIssued) demoActs
    total y.1.publisherBond ≤ Token.balance y.2 demoOracle ∧
      entry y.1.publisherBond demoPublisher = 180 ∧ Token.balance y.2 demoOracle = 180 ∧
      Token.balance y.2 demoFund = 170 := by
  have hbefore : ∀ i ∈ demoIssued, Token.OnlyTransfers demoOracle i := by
    intro i hi
    simp only [demoIssued, List.mem_cons, List.not_mem_nil, or_false] at hi
    rcases hi with rfl | rfl <;> exact ⟨by decide, fun hauth => absurd hauth (by decide)⟩
  have hnames : NamesToken demoBank.contractAddress {}
      (demoInvoke demoAdmin (.configureBonding demoAdmin ⟨5⟩ demoFund)) := by
    rintro admin tokenContract insuranceFund hcall
    cases hcall
    rfl
  obtain ⟨hbacked, _⟩ := bonds_backed_by_token demoOracle demoBank demoIssued hbefore demoActs
    ⟨⟨(fun _ _ _ hcall => by cases hcall), by decide, by decide⟩, ⟨hnames, by decide, by decide⟩,
      ⟨(fun _ _ _ hcall => by cases hcall), by decide, by decide⟩, ⟨by decide, by decide, rfl⟩,
      ⟨(fun _ _ _ hcall => by cases hcall), by decide, by decide⟩, trivial⟩ _ rfl
  exact ⟨hbacked, by decide +kernel, by decide +kernel, by decide +kernel⟩

end SorobanKit.OracleBonds
