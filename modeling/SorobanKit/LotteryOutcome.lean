import SorobanKit.LotteryPayout

set_option autoImplicit false

/-!
# How a committed lottery ends

A committed lottery can be rolled over exactly if its draw has too few participants. Otherwise the
draw finds its winners, and what it pays them depends on whether a prize overflows.
-/
namespace SorobanKit.Lottery
open CommonMath HostBytes HostInteger HostInvocation HostTransfers

theorem foldlM_addSplit {splits : List ℕ} {start total : ℕ}
    (h : splits.foldlM addSplit start = .ok total) : total = start + splits.sum := by
  induction splits generalizing start with
  | nil =>
    rw [List.foldlM_nil, pure_eq_ok] at h
    rw [List.sum_nil, h, Nat.add_zero]
  | cons split splits ih =>
    simp only [List.foldlM_cons, addSplit, bind_eq_ok, okOr_eq_ok, checkedAddU32_eq_some] at h
    obtain ⟨next, ⟨_, rfl⟩, hrest⟩ := h
    rw [ih hrest, List.sum_cons, Nat.add_assoc]

/-- What `initialize` checks of a configuration. -/
structure Accepted (config : Config) : Prop where
  price : 0 < config.ticketPrice
  winners : 0 < config.winnerCount
  length : config.prizeSplits.length = config.winnerCount
  sum : config.prizeSplits.sum = 10000
  fee : checkFee config.feeBps config.feeRecipient = .ok ()

/-- A lottery as `initialize` leaves it. -/
def initialized (config : Config) : State :=
  { admin := some config.admin, token := some config.token, ticketPrice := some config.ticketPrice
    totalTickets := some 0, state := some .opened, winnerCount := some config.winnerCount
    prizeSplits := some config.prizeSplits, maxTicketsPerAddress := config.maxTicketsPerAddress
    feeBps := config.feeBps, feeRecipient := config.feeRecipient }

theorem initializeLottery_ok {ctx : Context} {config : Config} {s : State}
    (h : initializeLottery ctx config {} = .ok s) : Accepted config ∧ s = initialized config := by
  simp only [initializeLottery, bind_eq_ok, rejectIf_eq_ok, requireAuth_eq_ok, pure_eq_ok] at h
  obtain ⟨_, _, _, hprice, _, hwinners, total, hfold, _, htotal, _, _, _, hfee, _, _, rfl⟩ := h
  have hsum := foldlM_addSplit hfold
  unfold bpsDenominator at htotal
  rw [not_or, not_not] at hwinners
  refine ⟨⟨by omega, by omega, hwinners.2, by omega, hfee⟩, ?_⟩
  simp only [initialized, Option.or_none]

/-- An open lottery, whose tickets have been sold since `initialize`. -/
def openedState (start : State) (totalTickets : ℕ) (participant : Finmap (fun _ : ℕ => Address))
    (transfers : List (Transfer Purpose)) : State :=
  { start with
    totalTickets := some totalTickets, participant := participant, transfers := transfers }

/-- The same lottery once the admin has committed to a secret. -/
def committedState (start : State) (hash : Bytes32) (revealDeadline totalTickets : ℕ)
    (participant : Finmap (fun _ : ℕ => Address)) (transfers : List (Transfer Purpose)) : State :=
  { start with
    state := some .committed, commit := some hash, revealDeadline := some revealDeadline
    totalTickets := some totalTickets, participant := participant, transfers := transfers }

section Rounds
variable {config : Config} {ctx : Context} {hash : Bytes32} {revealDeadline totalTickets : ℕ}
  {participant : Finmap (fun _ : ℕ => Address)} {transfers : List (Transfer Purpose)} {t : State}

theorem commitReveal_ok
    (h : commitReveal ctx hash revealDeadline
      (openedState (initialized config) totalTickets participant transfers) = .ok t) :
    t = committedState (initialized config) hash revealDeadline totalTickets participant transfers := by
  simp only [commitReveal, bind_eq_ok, pure_eq_ok] at h
  obtain ⟨_, _, _, _, _, _, _, _, _, _, _, _, _, _, _, _, rfl⟩ := h
  rfl

theorem rollover_ok
    (h : rollover ctx (committedState (initialized config) hash revealDeadline totalTickets participant
      transfers) = .ok t) :
    t = openedState (initialized config) totalTickets participant transfers := by
  simp only [rollover, bind_eq_ok, pure_eq_ok] at h
  obtain ⟨_, _, _, _, _, _, _, _, _, _, _, _, _, _, _, _, _, _, rfl⟩ := h
  rfl

end Rounds

section Draws
variable {sha256 : Bytes → Bytes32} {secret salt : Bytes32} {house : Address} {env : Env}
  {config : Config} {revealDeadline totalTickets : ℕ} {s : State} {pool : List Address}

theorem draw_eq (house : Address) {participant : Finmap (fun _ : ℕ => Address)}
    {transfers : List (Transfer Purpose)}
    (hs : s = committedState (initialized config) (commitHash sha256 secret salt) revealDeadline
      totalTickets participant transfers)
    (hauth : config.admin ∈ env.auths) (hpool : rebuildPool totalTickets s = .ok pool) :
    draw house env sha256 secret salt s = (do
      rejectIf ((distinct pool).length < config.winnerCount) .insufficientParticipants
      let winners ← selectWinners env.toContext sha256 secret salt config.winnerCount pool
      let t ← distribute house env winners config.winnerCount totalTickets config.prizeSplits s
      return (winners, t)) := by
  have hadmin : (requireAuth env.toContext config.admin : Result LotteryError Unit) = .ok () :=
    requireAuth_eq_ok.mpr hauth
  have hreveal : (rejectIf (commitHash sha256 secret salt ≠ commitHash sha256 secret salt)
      LotteryError.revealMismatch) = .ok () := rejectIf_neg (not_not.mpr rfl)
  subst hs
  simp only [draw, committedState, initialized, okOr, ok_bind, hadmin, requireCommitted, hreveal]
  simp only [committedState, initialized] at hpool
  rw [hpool]
  rfl

theorem rollover_ok_iff {keeper : Context} {participant : Finmap (fun _ : ℕ => Address)}
    {transfers : List (Transfer Purpose)} {hash : Bytes32}
    (hs : s = committedState (initialized config) hash revealDeadline totalTickets participant
      transfers)
    (hkeeper : revealDeadline < keeper.sequence ∨ config.admin ∈ keeper.auths)
    (hpool : rebuildPool totalTickets s = .ok pool) :
    (∃ t, rollover keeper s = .ok t) ↔ (distinct pool).length < config.winnerCount := by
  have hallowed : requireKeeper keeper config.admin revealDeadline = .ok () := by
    unfold requireKeeper
    split
    · rfl
    · next hearly => exact requireAuth_eq_ok.mpr (hkeeper.resolve_left hearly)
  subst hs
  simp only [rollover, bind_eq_ok, rejectIf_eq_ok, okOr_eq_ok, pure_eq_ok]
  constructor
  · rintro ⟨_, _, _, _, _, _, _, _, _, _, _, count, hcount, tickets, htickets, found, hfound, _, hless,
      _⟩
    cases hcount
    cases htickets
    rw [hpool] at hfound
    cases hfound
    exact Nat.lt_of_not_le hless
  · intro hless
    exact ⟨_, .committed, rfl, (), not_not.mpr rfl, revealDeadline, rfl, config.admin, rfl, (),
      hallowed, config.winnerCount, rfl, totalTickets, rfl, pool, hpool, (), Nat.not_le.mpr hless, rfl⟩

section Pool
variable {participant : Finmap (fun _ : ℕ => Address)} {transfers : List (Transfer Purpose)}

theorem draw_insufficient_iff
    (hs : s = committedState (initialized config) (commitHash sha256 secret salt) revealDeadline
      totalTickets participant transfers)
    (hauth : config.admin ∈ env.auths) (hpool : rebuildPool totalTickets s = .ok pool) :
    draw house env sha256 secret salt s = .error (.error .insufficientParticipants) ↔
      (distinct pool).length < config.winnerCount := by
  have hdraw := draw_eq house hs hauth hpool
  constructor
  · intro hfails
    by_contra hless
    have henough : config.winnerCount ≤ pool.toFinset.card := by
      rw [← distinct_length]
      exact Nat.le_of_not_lt hless
    have hselected : ∃ winners,
        selectWinners env.toContext sha256 secret salt config.winnerCount pool = .ok winners ∧ _ :=
      selectWinners_returns henough
    obtain ⟨winners, hselect, _⟩ := hselected
    rw [rejectIf_neg hless, hselect, ok_bind, ok_bind, hfails] at hdraw
    rcases bind_eq_error.mp hdraw.symm with htrap | ⟨_, _, hok⟩
    · have hprice : s.ticketPrice = some config.ticketPrice := by
        rw [hs]
        rfl
      have htoken : s.token = some config.token := by
        rw [hs]
        rfl
      cases distribute_eq_error hprice htoken htrap
    · cases hok
  · intro hless
    rw [rejectIf_pos hless] at hdraw
    exact hdraw

theorem draw_returns {winners : List Address} {ledger : Ledger} (haccepted : Accepted config)
    (hcount : config.winnerCount ≤ u32Max)
    (hs : s = committedState (initialized config) (commitHash sha256 secret salt) revealDeadline
      totalTickets participant transfers)
    (hauth : config.admin ∈ env.auths) (hpool : rebuildPool totalTickets s = .ok pool)
    (henough : ¬ (distinct pool).length < config.winnerCount)
    (hselect : selectWinners env.toContext sha256 secret salt config.winnerCount pool = .ok winners)
    (hlength : winners.length = config.winnerCount)
    (hpays : ∀ log, env.tokens.Pays ledger log config.token house)
    (hbalance : InI128 (replay ledger transfers config.token house))
    (hcovered : config.ticketPrice * totalTickets ≤ replay ledger transfers config.token house) :
    ∃ t log, draw house env sha256 secret salt s = .ok (winners, t) ∧ t.transfers = transfers ++ log ∧
      Payout house config.token (config.ticketPrice * totalTickets) config.feeBps config.prizeSplits
        winners log := by
  have hdraw := draw_eq house hs hauth hpool
  rw [rejectIf_neg henough, hselect, ok_bind, ok_bind, ← haccepted.length] at hdraw
  have hsplits : winners.length = config.prizeSplits.length := by rw [hlength, haccepted.length]
  have hfew : config.prizeSplits.length ≤ u32Max := by rwa [haccepted.length]
  have hwinners := haccepted.winners
  have hfirst : ∃ first, winners[0]? = some first := ⟨_, List.getElem?_eq_getElem (by omega)⟩
  have htotal : 0 ≤ config.ticketPrice * totalTickets :=
    Int.mul_nonneg haccepted.price.le (Int.natCast_nonneg _)
  have hfits : InI128 (config.ticketPrice * totalTickets) := by
    unfold InI128 at *
    omega
  obtain ⟨first, hfirst⟩ := hfirst
  have hpaid : ∃ t log, distribute house env winners config.prizeSplits.length totalTickets
      config.prizeSplits s = .ok t ∧ t.transfers = transfers ++ log ∧
      Payout house config.token (config.ticketPrice * totalTickets) config.feeBps config.prizeSplits
        winners log := by
    subst hs
    exact distribute_returns hpays rfl rfl haccepted.fee hfirst hsplits haccepted.sum hfew htotal hfits
      hcovered
  obtain ⟨t, log, hok, hlog, hpayout⟩ := hpaid
  rw [hok, ok_bind] at hdraw
  exact ⟨t, log, hdraw, hlog, hpayout⟩

end Pool

/-- A draw with too few participants can be rolled over instead. Any other draw finds different
    winners, each of which holds a ticket; the token lets it pay no more than the pool, and what it
    leaves is less than a unit a winner exactly if no prize overflows. -/
theorem draw_pays_iff {initCtx : Context} {start : State}
    {participant : Finmap (fun _ : ℕ => Address)} {transfers : List (Transfer Purpose)}
    (hinit : initializeLottery initCtx config {} = .ok start) (hcount : config.winnerCount ≤ u32Max)
    (hs : s = committedState start (commitHash sha256 secret salt) revealDeadline totalTickets
      participant transfers)
    (hstored : ∀ idx < totalTickets, ∃ p, participant.lookup idx = some p)
    (hauth : config.admin ∈ env.auths) :
    (∀ keeper : Context, revealDeadline < keeper.sequence ∨ config.admin ∈ keeper.auths →
      (draw house env sha256 secret salt s = .error (.error .insufficientParticipants) ↔
        ∃ t, rollover keeper s = .ok t)) ∧
    (draw house env sha256 secret salt s ≠ .error (.error .insufficientParticipants) →
      ∃ pool winners, rebuildPool totalTickets s = .ok pool ∧
        selectWinners env.toContext sha256 secret salt config.winnerCount pool = .ok winners ∧
        winners.length = config.winnerCount ∧ winners.Nodup ∧
        (∀ w ∈ winners, ∃ idx < totalTickets, participant.lookup idx = some w) ∧
        ∀ ledger, (∀ log, env.tokens.Pays ledger log config.token house) →
          InI128 (replay ledger transfers config.token house) →
          config.ticketPrice * totalTickets ≤ replay ledger transfers config.token house →
          ∃ t log, draw house env sha256 secret salt s = .ok (winners, t) ∧
            t.transfers = transfers ++ log ∧
            Payout house config.token (config.ticketPrice * totalTickets) config.feeBps
              config.prizeSplits winners log ∧
            paid log ≤ config.ticketPrice * totalTickets ∧
            (config.ticketPrice * totalTickets - paid log < config.winnerCount ↔
              ∀ split ∈ config.prizeSplits,
                InI128 ((config.ticketPrice * totalTickets -
                  feeOf (config.ticketPrice * totalTickets) config.feeBps) * split))) := by
  obtain ⟨haccepted, rfl⟩ := initializeLottery_ok hinit
  have hfound : ∃ pool, rebuildPool totalTickets s = .ok pool ∧
      ∀ p ∈ pool, ∃ idx < totalTickets, participant.lookup idx = some p := by
    subst hs
    exact rebuildPool_returns hstored
  obtain ⟨pool, hpool, hholders⟩ := hfound
  constructor
  · intro keeper hkeeper
    rw [draw_insufficient_iff hs hauth hpool, rollover_ok_iff hs hkeeper hpool]
  · intro hother
    have hless : ¬ (distinct pool).length < config.winnerCount := fun hless =>
      hother ((draw_insufficient_iff hs hauth hpool).mpr hless)
    have henough : config.winnerCount ≤ pool.toFinset.card := by
      rw [← distinct_length]
      exact Nat.le_of_not_lt hless
    obtain ⟨winners, hselect, hlength, hnodup, hmem⟩ := selectWinners_returns henough
    refine ⟨pool, winners, hpool, hselect, hlength, hnodup, fun w hw => hholders w (hmem w hw), ?_⟩
    intro ledger hpays hbalance hcovered
    obtain ⟨t, log, hdraw, hlog, hpayout⟩ := draw_returns haccepted hcount hs hauth hpool hless hselect hlength hpays hbalance hcovered
     
    have htotal : 0 ≤ config.ticketPrice * totalTickets :=
      Int.mul_nonneg haccepted.price.le (Int.natCast_nonneg _)
    have hbounds := hpayout.bounds haccepted.fee htotal haccepted.sum (by rwa [haccepted.length])
    rw [haccepted.length] at hbounds
    exact ⟨t, log, hdraw, hlog, hpayout, hbounds⟩

end Draws

def demoAdmin : Address := ⟨0⟩
def demoToken : Address := ⟨1⟩
def demoOperator : Address := ⟨2⟩
def demoHouse : Address := ⟨3⟩
def demoAlice : Address := ⟨4⟩
def demoBob : Address := ⟨5⟩

def demoSha256 (bytes : Bytes) : Bytes32 := Vector.replicate 32 (UInt8.ofNat bytes.length)

def demoSecret : Bytes32 := Vector.replicate 32 7

/-- Two winners and a fee of five percent. -/
def demoConfig : Config :=
  ⟨demoAdmin, demoToken, 100, 2, [6000, 4000], none, some 500, some demoOperator⟩

/-- Alice bought two tickets, and Bob one. -/
def demoParticipants : Finmap (fun _ : ℕ => Address) :=
  ((∅ : Finmap (fun _ : ℕ => Address)).insert 0 demoAlice |>.insert 1 demoBob).insert 2 demoAlice

def demoLedger (balance : ℤ) : Ledger := fun _ holder => if holder = demoHouse then balance else 0

def demoEnv (balance : ℤ) : Env := ⟨⟨20, [demoAdmin]⟩, honestReplies (demoLedger balance)⟩

def demoCommitted (config : Config) (totalTickets : ℕ) : State :=
  committedState (initialized config) (commitHash demoSha256 demoSecret demoSecret) 30 totalTickets
    demoParticipants []

theorem draw_pays_demo :
    ∃ winners t log, draw demoHouse (demoEnv 300) demoSha256 demoSecret demoSecret
      (demoCommitted demoConfig 3) = .ok (winners, t) ∧ winners.length = 2 ∧ winners.Nodup ∧
      t.transfers = log ∧ paid log ≤ 300 ∧ 300 - paid log < 2 := by
  have hstored : ∀ idx < 3, ∃ p, demoParticipants.lookup idx = some p := by
    have hsome : ∀ idx < 3, (demoParticipants.lookup idx).isSome := by decide +kernel
    exact fun idx hidx => Option.isSome_iff_exists.mp (hsome idx hidx)
  have hreturns : (draw demoHouse (demoEnv 300) demoSha256 demoSecret demoSecret
      (demoCommitted demoConfig 3)).toOption.isSome := by decide +kernel
  have hdraw := @draw_pays_iff demoSha256 demoSecret demoSecret demoHouse (demoEnv 300) demoConfig 30 3
    (demoCommitted demoConfig 3) ⟨10, [demoAdmin]⟩ (initialized demoConfig) demoParticipants [] rfl
    (by decide) rfl hstored (by decide)
  have hother : draw demoHouse (demoEnv 300) demoSha256 demoSecret demoSecret
      (demoCommitted demoConfig 3) ≠ .error (.error .insufficientParticipants) := by
    intro hfails
    rw [hfails] at hreturns
    cases hreturns
  obtain ⟨_, winners, _, _, hlength, hnodup, _, hmoney⟩ := hdraw.2 hother
  obtain ⟨t, log, hok, hlog, _, hle, hiff⟩ := hmoney (demoLedger 300) (fun log => honestReplies_pays _ log _ _) (by decide +kernel)
    (by decide +kernel)
  exact ⟨winners, t, log, hok, hlength, hnodup, hlog, hle, hiff.mpr (by decide +kernel)⟩

/-- A single winner of everything. -/
def demoLarge : Config := ⟨demoAdmin, demoToken, 2 ^ 120, 1, [10000], none, none, none⟩

/-- The winner of a large pool gets nothing. -/
theorem prize_dropped :
    initializeLottery ⟨10, [demoAdmin]⟩ demoLarge {} = .ok (initialized demoLarge) ∧
    demoLarge.ticketPrice * 1 ≤ demoLedger (2 ^ 120) demoToken demoHouse ∧
    (draw demoHouse (demoEnv (2 ^ 120)) demoSha256 demoSecret demoSecret
      (demoCommitted demoLarge 1)).toOption.map (fun r => (r.1, r.2.transfers)) =
      some ([demoAlice], [⟨.prize, demoToken, demoHouse, demoAlice, 0⟩]) ∧
    ¬ demoLarge.ticketPrice * 1 -
      paid [⟨.prize, demoToken, demoHouse, demoAlice, 0⟩] < demoLarge.winnerCount :=
  ⟨rfl, by decide +kernel⟩

end SorobanKit.Lottery
