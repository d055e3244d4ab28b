import SorobanKit.WrappedTokenContract

set_option autoImplicit false

/-!
# The two windows of the unwrap limit

The limiter keeps the amounts of a window, and the call counter inside it the number of its calls.
Both windows open with the same call, and as every call counts for one unit at least, the counter is
never reached before the amount.
-/
namespace SorobanKit.WrappedToken
open HostInteger HostInvocation HostRuns

inductive LimiterCall where
  | enforceUnwrapRateLimit (amount : ℤ)
  | setUnwrapRateLimit (maxUnwrapPerWindow : ℤ) (windowLedgers : ℕ)

structure LimiterInvocation extends Env where
  call : LimiterCall

def execLimiter (i : LimiterInvocation) (s : State) : Result WrappedTokenError State :=
  match i.call with
  | .enforceUnwrapRateLimit amount => enforceUnwrapRateLimit i.toEnv amount s
  | .setUnwrapRateLimit maxUnwrapPerWindow windowLedgers =>
    setUnwrapRateLimit i.toEnv maxUnwrapPerWindow windowLedgers s

/-- The end of a window that starts with this call fits. -/
def Room (s : State) (i : LimiterInvocation) : Prop :=
  match i.call with
  | .enforceUnwrapRateLimit _ => i.sequence + rateWindow s < u32Max
  | .setUnwrapRateLimit .. => True

def runLimiter (s : State) (is : List LimiterInvocation) : State := HostRuns.run execLimiter s is

def LimiterCall.Bounded : LimiterCall → Prop
  | .enforceUnwrapRateLimit amount => 1 ≤ amount
  | .setUnwrapRateLimit maxUnwrapPerWindow _ => maxUnwrapPerWindow < 2 ^ 32

/-- Where the current window starts and what was accepted since, when the last window started at the
    ledger and with the amounts of `w`. -/
def openedAt (window now : ℕ) : Option (ℕ × List ℤ) → ℕ × List ℤ
  | some (start, amounts) => if start + window ≤ now then (now, []) else (start, amounts)
  | none => (now, [])

/-- One accepted call. Without a limit there are no windows. -/
def noteCall (w : Option (ℕ × List ℤ)) (e : Entry State LimiterInvocation) : Option (ℕ × List ℤ) :=
  match e.invocation.call with
  | .enforceUnwrapRateLimit amount =>
    if e.before.unwrapRateLimit.isSome then
      let opened := openedAt (rateWindow e.before) e.invocation.sequence w
      some (opened.1, opened.2 ++ [amount])
    else w
  | .setUnwrapRateLimit .. => w

/-- The last window of a history. -/
def lastWindow (past : List (Entry State LimiterInvocation)) : Option (ℕ × List ℤ) :=
  past.foldl noteCall none

/-- What was accepted since the current window started. -/
def spent (window now : ℕ) (past : List (Entry State LimiterInvocation)) : ℤ :=
  (openedAt window now (lastWindow past)).2.sum

theorem lastWindow_snoc (past : List (Entry State LimiterInvocation))
    (e : Entry State LimiterInvocation) : lastWindow (past ++ [e]) = noteCall (lastWindow past) e := by
  unfold lastWindow
  rw [List.foldl_append, List.foldl_cons, List.foldl_nil]

theorem openWindow_eq {α : Type} (f : List ℤ → α) {window now : ℕ} {w : Option (ℕ × List ℤ)}
    (hstart : ∀ x ∈ w, x.1 ≤ now) (hroom : now + window < u32Max) :
    openWindow window now (f []) ((w.map fun x => (x.1, f x.2)).getD (now, f [])) =
      ((openedAt window now w).1, f (openedAt window now w).2) := by
  unfold openWindow
  cases w with
  | none =>
    rw [Option.map_none, Option.getD_none, ite_self]
    rfl
  | some x =>
    obtain ⟨start, amounts⟩ := x
    have hx : start ≤ now := hstart (start, amounts) rfl
    have hend : saturatingAddU32 start window = start + window := min_eq_left (by omega)
    rw [Option.map_some, Option.getD_some]
    dsimp only
    rw [hend]
    unfold openedAt
    dsimp only
    by_cases hpast : start + window ≤ now
    · rw [if_pos hpast, if_pos hpast]
    · rw [if_neg hpast, if_neg hpast]

/-- What the stored usage and the stored calls are in a run. -/
structure Synced (past : List (Entry State LimiterInvocation)) (s : State) : Prop where
  unpaused : s.unwrapRateLimitPaused.getD false = false
  usage_eq : s.unwrapRateUsage = (lastWindow past).map fun w => (w.1, w.2.sum)
  calls_eq : s.unwrapCalls = (lastWindow past).map fun w => (w.1, w.2.length)
  ones : ∀ w ∈ lastWindow past, ∀ amount ∈ w.2, 1 ≤ amount
  limit_le : ∀ limit ∈ s.unwrapRateLimit, 1 ≤ limit ∧ limit ≤ u32Max

def clock (s : State) : ℕ := (s.unwrapRateUsage.map Prod.fst).getD 0

section Steps
variable {past : List (Entry State LimiterInvocation)} {env : Env} {s t : State} {amount limit : ℤ}

theorem Synced.start_le (hs : Synced past s) {now : ℕ} (hclock : clock s ≤ now) :
    ∀ w ∈ lastWindow past, w.1 ≤ now := by
  intro w hw
  unfold clock at hclock
  rw [hs.usage_eq, hw] at hclock
  exact hclock

theorem Synced.same_start (hs : Synced past s) :
    s.unwrapRateUsage.map Prod.fst = s.unwrapCalls.map Prod.fst := by
  rw [hs.usage_eq, hs.calls_eq, Option.map_map, Option.map_map]
  rfl

theorem mem_openedAt {window now : ℕ} {w : Option (ℕ × List ℤ)}
    (h : amount ∈ (openedAt window now w).2) : ∃ x ∈ w, amount ∈ x.2 := by
  unfold openedAt at h
  split at h
  · split at h
    · cases h
    · exact ⟨_, rfl, h⟩
  · cases h

theorem length_le_sum {amounts : List ℤ} (h : ∀ a ∈ amounts, 1 ≤ a) :
    (amounts.length : ℤ) ≤ amounts.sum := by
  induction amounts with
  | nil => exact le_refl 0
  | cons a amounts ih =>
    obtain ⟨ha, hrest⟩ := List.forall_mem_cons.mp h
    have hsum := ih hrest
    rw [List.length_cons, List.sum_cons]
    omega

theorem Synced.calls_le (hs : Synced past s) (window now : ℕ) :
    ((openedAt window now (lastWindow past)).2.length : ℤ) ≤ spent window now past := by
  apply length_le_sum
  intro a ha
  obtain ⟨w, hw, hmem⟩ := mem_openedAt ha
  exact hs.ones w hw a hmem

theorem maxCalls_eq (h : 1 ≤ limit ∧ limit ≤ u32Max) : maxCalls limit = limit.toNat := by
  unfold maxCalls
  rw [if_pos (by omega)]
  omega

theorem Synced.usage_opened (hs : Synced past s) (hclock : clock s ≤ env.sequence)
    (hroom : env.sequence + rateWindow s < u32Max) :
    openWindow (rateWindow s) env.sequence 0 (s.unwrapRateUsage.getD (env.sequence, 0)) =
      ((openedAt (rateWindow s) env.sequence (lastWindow past)).1,
        spent (rateWindow s) env.sequence past) := by
  rw [hs.usage_eq]
  exact openWindow_eq List.sum (hs.start_le hclock) hroom

theorem Synced.calls_opened (hs : Synced past s) (hclock : clock s ≤ env.sequence)
    (hroom : env.sequence + rateWindow s < u32Max) :
    openWindow (rateWindow s) env.sequence 0 (s.unwrapCalls.getD (env.sequence, 0)) =
      ((openedAt (rateWindow s) env.sequence (lastWindow past)).1,
        (openedAt (rateWindow s) env.sequence (lastWindow past)).2.length) := by
  rw [hs.calls_eq]
  exact openWindow_eq List.length (hs.start_le hclock) hroom

/-- The counter of calls admits what the amounts admit: every call accepted before in this window
    was for one unit at least. -/
theorem Synced.records_call (hs : Synced past s) (hclock : clock s ≤ env.sequence)
    (hroom : env.sequence + rateWindow s < u32Max) (hbound : 1 ≤ limit ∧ limit ≤ u32Max)
    (hamount : 1 ≤ amount) (hle : spent (rateWindow s) env.sequence past + amount ≤ limit) :
    checkAndRecord (rateWindow s) (maxCalls limit) env.sequence s.unwrapCalls =
      some ((openedAt (rateWindow s) env.sequence (lastWindow past)).1,
        (openedAt (rateWindow s) env.sequence (lastWindow past)).2.length + 1) := by
  have hcalls := hs.calls_le (rateWindow s) env.sequence
  unfold checkAndRecord
  rw [hs.calls_opened hclock hroom, maxCalls_eq hbound]
  dsimp only
  have hone : saturatingAddU32 (openedAt (rateWindow s) env.sequence (lastWindow past)).2.length 1 =
      (openedAt (rateWindow s) env.sequence (lastWindow past)).2.length + 1 :=
    min_eq_left (by omega)
  rw [if_neg (by omega), hone]

theorem enforce_accepts (hs : Synced past s) (hclock : clock s ≤ env.sequence)
    (hroom : env.sequence + rateWindow s < u32Max) (hamount : 1 ≤ amount)
    (hlimit : s.unwrapRateLimit = some limit)
    (hle : spent (rateWindow s) env.sequence past + amount ≤ limit) :
    enforceUnwrapRateLimit env amount s = .ok { s with
      unwrapCalls := some ((openedAt (rateWindow s) env.sequence (lastWindow past)).1,
        (openedAt (rateWindow s) env.sequence (lastWindow past)).2.length + 1)
      unwrapRateUsage := some ((openedAt (rateWindow s) env.sequence (lastWindow past)).1,
        spent (rateWindow s) env.sequence past + amount) } := by
  have hbound := hs.limit_le limit hlimit
  have hcheck := hs.records_call hclock hroom hbound hamount hle
  have hadd : checkedAdd (spent (rateWindow s) env.sequence past) amount =
      some (spent (rateWindow s) env.sequence past + amount) := by
    have hcalls := hs.calls_le (rateWindow s) env.sequence
    have hmax : u32Max = 4294967295 := rfl
    rw [checkedAdd_eq_some]
    unfold InI128
    omega
  unfold enforceUnwrapRateLimit
  rw [hs.unpaused, hlimit]
  dsimp only
  rw [hs.usage_opened hclock hroom]
  dsimp only
  have hadmit : rejectIf (limit < spent (rateWindow s) env.sequence past + amount)
      WrappedTokenError.rateLimitExceeded = .ok () := rejectIf_neg (by omega)
  rw [hadd, hcheck]
  simp only [Bool.false_eq_true, if_false, okOr, ok_bind, hadmit]
  rfl

theorem enforce_rejects (hs : Synced past s) (hclock : clock s ≤ env.sequence)
    (hroom : env.sequence + rateWindow s < u32Max) (hlimit : s.unwrapRateLimit = some limit)
    (hlt : limit < spent (rateWindow s) env.sequence past + amount) :
    enforceUnwrapRateLimit env amount s ≠ .ok t := by
  intro h
  unfold enforceUnwrapRateLimit at h
  rw [hs.unpaused, hlimit] at h
  dsimp only at h
  rw [hs.usage_opened hclock hroom] at h
  simp only [Bool.false_eq_true, if_false, bind_eq_ok, okOr_eq_ok, checkedAdd_eq_some,
    rejectIf_eq_ok] at h
  obtain ⟨used, ⟨_, hused⟩, _, hle, _⟩ := h
  omega

theorem enforce_unlimited (hs : Synced past s) (hlimit : s.unwrapRateLimit = none) :
    enforceUnwrapRateLimit env amount s = .ok s := by
  unfold enforceUnwrapRateLimit
  rw [hs.unpaused, hlimit]
  rfl

theorem enforce_accepts_iff (hs : Synced past s) (hclock : clock s ≤ env.sequence)
    (hroom : env.sequence + rateWindow s < u32Max) (hamount : 1 ≤ amount) :
    (∃ t, enforceUnwrapRateLimit env amount s = .ok t) ↔
      ∀ limit ∈ s.unwrapRateLimit,
        spent (rateWindow s) env.sequence past + amount ≤ limit := by
  constructor
  · intro hok limit hlimit
    obtain ⟨t, ht⟩ := hok
    by_contra hlt
    exact enforce_rejects hs hclock hroom hlimit (by omega) ht
  · intro hle
    cases hlimit : s.unwrapRateLimit with
    | none => exact ⟨s, enforce_unlimited hs hlimit⟩
    | some limit => exact ⟨_, enforce_accepts hs hclock hroom hamount hlimit (hle limit hlimit)⟩

end Steps

section Runs
variable {past : List (Entry State LimiterInvocation)} {s t : State} {i : LimiterInvocation}

theorem synced_enforce {amount : ℤ} (hs : Synced past s) (hclock : clock s ≤ i.sequence)
    (hroom : i.sequence + rateWindow s < u32Max) (hamount : 1 ≤ amount)
    (hcall : i.call = .enforceUnwrapRateLimit amount)
    (hok : enforceUnwrapRateLimit i.toEnv amount s = .ok t) : Synced (past ++ [⟨s, i, t⟩]) t := by
  cases hlimit : s.unwrapRateLimit with
  | none =>
    rw [enforce_unlimited hs hlimit] at hok
    cases hok
    have hlast : lastWindow (past ++ [⟨s, i, s⟩]) = lastWindow past := by
      rw [lastWindow_snoc]
      unfold noteCall
      simp only [hcall, hlimit, Option.isSome_none, Bool.false_eq_true, if_false]
    exact ⟨hs.unpaused, by rw [hlast, hs.usage_eq], by rw [hlast, hs.calls_eq],
      by rw [hlast]; exact hs.ones, hs.limit_le⟩
  | some limit =>
    have hle : spent (rateWindow s) i.sequence past + amount ≤ limit :=
      (enforce_accepts_iff hs hclock hroom hamount).mp ⟨t, hok⟩ limit hlimit
    have hlast : lastWindow (past ++ [⟨s, i, t⟩]) =
        some ((openedAt (rateWindow s) i.sequence (lastWindow past)).1,
          (openedAt (rateWindow s) i.sequence (lastWindow past)).2 ++ [amount]) := by
      rw [lastWindow_snoc]
      unfold noteCall
      simp only [hcall, hlimit, Option.isSome_some, if_true]
    have hwrite := enforce_accepts hs hclock hroom hamount hlimit hle
    rw [hok] at hwrite
    cases hwrite
    constructor
    · exact hs.unpaused
    · rw [hlast]
      simp only [Option.map_some, List.sum_append, List.sum_cons, List.sum_nil, add_zero]
      rfl
    · rw [hlast]
      simp only [Option.map_some, List.length_append, List.length_cons, List.length_nil]
    · rw [hlast]
      intro w hw a ha
      cases hw
      rcases List.mem_append.mp ha with ha | ha
      · obtain ⟨w, hw, hmem⟩ := mem_openedAt ha
        exact hs.ones w hw a hmem
      · rw [List.mem_singleton.mp ha]
        exact hamount
    · exact hs.limit_le

theorem synced_set {maxUnwrapPerWindow : ℤ} {windowLedgers : ℕ} (hs : Synced past s)
    (hbound : maxUnwrapPerWindow < 2 ^ 32)
    (hcall : i.call = .setUnwrapRateLimit maxUnwrapPerWindow windowLedgers)
    (hok : setUnwrapRateLimit i.toEnv maxUnwrapPerWindow windowLedgers s = .ok t) :
    Synced (past ++ [⟨s, i, t⟩]) t := by
  have hlast : lastWindow (past ++ [⟨s, i, t⟩]) = lastWindow past := by
    rw [lastWindow_snoc]
    unfold noteCall
    rw [hcall]
  unfold setUnwrapRateLimit at hok
  simp only [bind_eq_ok, rejectIf_eq_ok, pure_eq_ok, not_or, not_le] at hok
  obtain ⟨_, _, _, ⟨hpos, _⟩, rfl⟩ := hok
  constructor
  · exact hs.unpaused
  · rw [hlast]
    exact hs.usage_eq
  · rw [hlast]
    exact hs.calls_eq
  · rw [hlast]
    exact hs.ones
  · intro limit hlimit
    cases hlimit
    have hmax : u32Max = 4294967295 := rfl
    omega

theorem synced_step (hs : Synced past s) (hclock : clock s ≤ i.sequence) (hroom : Room s i)
    (hbounded : i.call.Bounded) (hok : execLimiter i s = .ok t) :
    Synced (past ++ [⟨s, i, t⟩]) t := by
  unfold Room at hroom
  unfold execLimiter at hok
  cases hcall : i.call with
  | enforceUnwrapRateLimit amount =>
    simp only [hcall] at hok hroom
    rw [hcall] at hbounded
    exact synced_enforce hs hclock hroom hbounded hcall hok
  | setUnwrapRateLimit maxUnwrapPerWindow windowLedgers =>
    simp only [hcall] at hok
    rw [hcall] at hbounded
    exact synced_set hs hbounded hcall hok

theorem openWindow_start {α : Type} (window now : ℕ) (fresh : α) (w : Option (ℕ × α)) :
    (openWindow window now fresh (w.getD (now, fresh))).1 ≤
      max ((w.map Prod.fst).getD 0) now := by
  unfold openWindow
  split
  · exact le_max_right _ _
  · cases w with
    | none => exact le_max_right _ _
    | some x => exact le_max_left _ _

theorem clock_step (hok : execLimiter i s = .ok t) : clock t ≤ max (clock s) i.sequence := by
  unfold execLimiter at hok
  split at hok
  · unfold enforceUnwrapRateLimit at hok
    split at hok
    · cases hok
      exact le_max_left _ _
    · split at hok
      · cases hok
        exact le_max_left _ _
      · simp only [bind_eq_ok, pure_eq_ok] at hok
        obtain ⟨_, _, _, _, _, _, rfl⟩ := hok
        exact openWindow_start (rateWindow s) i.sequence 0 s.unwrapRateUsage
  · unfold setUnwrapRateLimit at hok
    simp only [bind_eq_ok, pure_eq_ok] at hok
    obtain ⟨_, _, _, _, rfl⟩ := hok
    exact le_max_left _ _

theorem synced_run {is : List LimiterInvocation} (hs : Synced [] s)
    (halong : Along execLimiter
      (fun s i => (clock s ≤ i.sequence ∧ Room s i) ∧ i.call.Bounded) s is) :
    Synced (history execLimiter s is) (runLimiter s is) := by
  have hstep : ∀ past s i t, Synced past s →
      (clock s ≤ i.sequence ∧ Room s i) ∧ i.call.Bounded → execLimiter i s = .ok t →
      Synced (past ++ [⟨s, i, t⟩]) t := by
    intro past s i t hs hi hok
    exact synced_step hs hi.1.1 hi.1.2 hi.2 hok
  exact history_invariant_along hstep hs halong

end Runs

section Initialized
variable {env : Env} {admin wrappedToken underlyingToken : Address} {maxWrapPerAddress : Option ℤ}
  {wrapFeeBps unwrapFeeBps : Option ℕ} {feeRecipient : Option Address} {minAmount : Option ℤ}
  {reserve : ℤ} {s : State}

theorem synced_initialized (h : initializeWrapper env admin wrappedToken underlyingToken
    maxWrapPerAddress wrapFeeBps unwrapFeeBps feeRecipient minAmount { reserve := reserve } = .ok s) :
    Synced [] s ∧ clock s = 0 := by
  unfold initializeWrapper at h
  simp only [bind_eq_ok, pure_eq_ok] at h
  obtain ⟨_, _, _, _, _, _, _, _, _, _, _, _, rfl⟩ := h
  constructor
  · constructor
    · rfl
    · rfl
    · rfl
    · intro w hw
      cases hw
    · intro limit hlimit
      cases hlimit
  · rfl

/-- The limiter accepts what, with everything accepted since the current window started, is at most
    the limit: the calls it counts inside never change that, and both windows start together. -/
theorem limiter_accepts_iff (hinit : initializeWrapper env admin wrappedToken underlyingToken
      maxWrapPerAddress wrapFeeBps unwrapFeeBps feeRecipient minAmount { reserve := reserve } = .ok s)
    (is : List LimiterInvocation) {j : LimiterInvocation} {amount : ℤ}
    (hcall : j.call = .enforceUnwrapRateLimit amount)
    (hbounded : ∀ i ∈ is ++ [j], i.call.Bounded)
    (htime : (is ++ [j]).Pairwise fun i j => i.sequence ≤ j.sequence)
    (hroom : Along execLimiter Room s (is ++ [j])) :
    ((∃ t, execLimiter j (runLimiter s is) = .ok t) ↔
      ∀ limit ∈ (runLimiter s is).unwrapRateLimit,
        spent (rateWindow (runLimiter s is)) j.sequence (history execLimiter s is) + amount ≤ limit) ∧
    (runLimiter s is).unwrapRateUsage.map Prod.fst = (runLimiter s is).unwrapCalls.map Prod.fst := by
  obtain ⟨hs, hzero⟩ := synced_initialized hinit
  have hclock : Along execLimiter (fun s i => clock s ≤ i.sequence) s (is ++ [j]) := by
    apply along_clock (fun s i t hok => clock_step hok) _ htime
    intro i _
    rw [hzero]
    exact Nat.zero_le _
  obtain ⟨hpast, ⟨hnow, hfits⟩, hamount⟩ := ((hclock.and hroom).and_forall hbounded).at_split
  have hrun := synced_run hs hpast
  unfold Room at hfits
  simp only [hcall] at hfits
  rw [hcall] at hamount
  have hexec : ∀ s, execLimiter j s = enforceUnwrapRateLimit j.toEnv amount s := by
    intro s
    unfold execLimiter
    rw [hcall]
  rw [hexec]
  exact ⟨enforce_accepts_iff hrun hnow hfits hamount, hrun.same_start⟩

end Initialized

def limiterAdmin : Address := ⟨1⟩

def limiterCall (sequence : ℕ) (call : LimiterCall) : LimiterInvocation where
  sequence := sequence
  auths := [limiterAdmin]
  accepts _ _ := true
  delivers _ x := x.amount.toNat
  getReserve _ := none
  call := call

/-- Three units in ten ledgers, and one unit more while the window is open. -/
def limiterCalls : List LimiterInvocation :=
  [limiterCall 3 (.enforceUnwrapRateLimit 50), limiterCall 4 (.setUnwrapRateLimit 3 10),
    limiterCall 5 (.enforceUnwrapRateLimit 1), limiterCall 6 (.enforceUnwrapRateLimit 1),
    limiterCall 7 (.enforceUnwrapRateLimit 2), limiterCall 8 (.setUnwrapRateLimit 4 9)]

def limiterInstalled : State := { ({ reserve := 0 } : State) with
  admin := some limiterAdmin, wrappedToken := some ⟨4⟩, underlyingToken := some ⟨5⟩
  totalWrapped := some 0 }

/-- The call at ledger 7 was rejected, and the window that ledger 5 opened ends with ledger 14. -/
theorem limiter_accepts_demo :
    (∃ t, execLimiter (limiterCall 13 (.enforceUnwrapRateLimit 2))
      (runLimiter limiterInstalled limiterCalls) = .ok t) ∧
    (runLimiter limiterInstalled limiterCalls).unwrapRateUsage = some (5, 2) := by
  have hinit : initializeWrapper (limiterCall 1 (.setUnwrapRateLimit 1 1)).toEnv limiterAdmin ⟨4⟩ ⟨5⟩
      none none none none none { reserve := 0 } = .ok limiterInstalled := rfl
  have hbounded : ∀ i ∈ limiterCalls ++ [limiterCall 13 (.enforceUnwrapRateLimit 2)],
      i.call.Bounded := by
    simp [limiterCalls, limiterCall, LimiterCall.Bounded]
  have htime : (limiterCalls ++ [limiterCall 13 (.enforceUnwrapRateLimit 2)]).Pairwise
      fun i j => i.sequence ≤ j.sequence := by
    simp [limiterCalls, limiterCall]
  have hroom : Along execLimiter Room limiterInstalled
      (limiterCalls ++ [limiterCall 13 (.enforceUnwrapRateLimit 2)]) :=
    ⟨show 3 + 1 < u32Max by decide, trivial, show 5 + 10 < u32Max by decide,
      show 6 + 10 < u32Max by decide, show 7 + 10 < u32Max by decide, trivial,
      show 13 + 9 < u32Max by decide, trivial⟩
  have hiff := (limiter_accepts_iff hinit limiterCalls rfl hbounded htime hroom).1
  constructor
  · apply hiff.mpr
    intro limit hlimit
    cases hlimit
    decide
  · rfl

end SorobanKit.WrappedToken
