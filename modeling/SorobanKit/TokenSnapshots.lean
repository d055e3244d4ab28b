import SorobanKit.HostSearch
import SorobanKit.TokenConservation
import SorobanKit.TokenMoney

set_option autoImplicit false

/-!
# Balance snapshots

`snapshot` writes the caller's balance under a direct key and appends it to the caller's history;
`balance_at` searches the history as if its ledgers were in increasing order. The ledger is an
argument of the call, and nothing compares it with the ones before it.
-/
namespace SorobanKit.Token
open HostInvocation HostRuns HostSearch

/-- The key the search compares, `history.get(mid).unwrap().ledger`. -/
def ledgerAt (history : List SnapshotEntry) (i : ℕ) : ℕ := (history[i]?.map (·.ledger)).getD 0

/-- The fast path; an empty vector is an empty window. -/
def lookup (history : List SnapshotEntry) (ledger : ℕ) : Option ℤ :=
  (search (ledgerAt history) ledger 0 history.length).bind fun mid =>
    history[mid]?.map (·.balance)

def balanceAt (account : Address) (ledger : ℕ) (s : State) : Option ℤ :=
  match s.snapshotHistory account with
  | some history => lookup history ledger
  | none => s.snapshot (account, ledger)

/-- The history vector, empty where there is none. -/
def snapshotHistory (account : Address) (s : State) : List SnapshotEntry :=
  (s.snapshotHistory account).getD []

def Call.snapshotOf (account : Address) (ledger : ℕ) : Call → Bool
  | .snapshot caller l => caller = account ∧ l = ledger
  | _ => false

/-- The balance at the last accepted `snapshot(account, ledger)`. -/
def lastSnapshot (account : Address) (ledger : ℕ) (past : List (Entry State Invocation)) :
    Option ℤ :=
  (past.filter fun e => e.invocation.call.snapshotOf account ledger).getLast?.map fun e =>
    balance e.before account

/-- The last value in a history vector for a ledger. -/
def lastEntry (history : List SnapshotEntry) (ledger : ℕ) : Option ℤ :=
  (history.filter fun x => x.ledger = ledger).getLast?.map (·.balance)

theorem lastEntry_append (history : List SnapshotEntry) (x : SnapshotEntry) (ledger : ℕ) :
    lastEntry (history ++ [x]) ledger =
      if x.ledger = ledger then some x.balance else lastEntry history ledger := by
  unfold lastEntry
  split <;> simp_all

theorem lastSnapshot_append (account : Address) (ledger : ℕ) (past : List (Entry State Invocation))
    (e : Entry State Invocation) :
    lastSnapshot account ledger (past ++ [e]) =
      if e.invocation.call.snapshotOf account ledger then some (balance e.before account)
      else lastSnapshot account ledger past := by
  unfold lastSnapshot
  split <;> simp_all

theorem exec_snapshot {d : Deployment} {i : Invocation} {s t : State} {caller : Address}
    {ledger : ℕ} (hcall : i.call = .snapshot caller ledger) (h : exec d i s = .ok t) :
    t.snapshot = Function.update s.snapshot (caller, ledger) (some (balance s caller)) ∧
      ∀ account, snapshotHistory account t =
        if account = caller then snapshotHistory caller s ++ [⟨ledger, balance s caller⟩]
        else snapshotHistory account s := by
  simp only [exec, hcall, snapshot, bind_eq_ok, pure_eq_ok] at h
  obtain ⟨_, _, rfl⟩ := h
  refine ⟨rfl, fun account => ?_⟩
  by_cases hcaller : account = caller
  · subst hcaller
    simp [snapshotHistory]
  · simp [snapshotHistory, hcaller]

/-- The direct keys, the history vectors and the accepted calls tell the same story. -/
structure SnapshotLog (past : List (Entry State Invocation)) (s : State) : Prop where
  direct : ∀ account ledger, s.snapshot (account, ledger) = lastSnapshot account ledger past
  entries : ∀ account ledger,
    s.snapshot (account, ledger) = lastEntry (snapshotHistory account s) ledger

theorem snapshotLog_step {d : Deployment} {past : List (Entry State Invocation)} {s t : State}
    {i : Invocation} (hs : SnapshotLog past s) (h : exec d i s = .ok t) :
    SnapshotLog (past ++ [⟨s, i, t⟩]) t := by
  by_cases hcall : ∃ caller ledger, i.call = .snapshot caller ledger
  · obtain ⟨caller, ledger, hcall⟩ := hcall
    obtain ⟨hdirect, hhistory⟩ := exec_snapshot hcall h
    refine ⟨fun account q => ?_, fun account q => ?_⟩
    · rw [hdirect, lastSnapshot_append, hcall, Call.snapshotOf]
      by_cases hkey : caller = account ∧ ledger = q
      · obtain ⟨rfl, rfl⟩ := hkey
        simp
      · have hne : (account, q) ≠ (caller, ledger) := by
          rintro heq
          cases heq
          exact hkey ⟨rfl, rfl⟩
        rw [Function.update_of_ne hne, hs.direct]
        simp [hkey]
    · rw [hdirect, hhistory]
      by_cases hcaller : account = caller
      · subst hcaller
        rw [if_pos rfl, lastEntry_append, ← hs.entries]
        by_cases hledger : ledger = q
        · rw [hledger, Function.update_self, if_pos rfl]
        · have hne : (account, q) ≠ (account, ledger) := by
            rintro heq
            cases heq
            exact hledger rfl
          rw [Function.update_of_ne hne, if_neg hledger]
      · have hne : (account, q) ≠ (caller, ledger) := by
          rintro heq
          cases heq
          exact hcaller rfl
        rw [Function.update_of_ne hne, if_neg hcaller, hs.entries]
  · have hother : ∀ caller ledger, i.call ≠ .snapshot caller ledger :=
      fun caller ledger hc => hcall ⟨caller, ledger, hc⟩
    obtain ⟨hdirect, hhistory⟩ := exec_snapshots h hother
    have hnone : ∀ account ledger, i.call.snapshotOf account ledger = false := by
      intro account ledger
      cases hc : i.call with
      | snapshot caller l => exact absurd hc (hother caller l)
      | _ => rfl
    refine ⟨fun account ledger => ?_, fun account ledger => ?_⟩
    · rw [hdirect, hs.direct, lastSnapshot_append, hnone]
      rfl
    · rw [hdirect, snapshotHistory, hhistory]
      exact hs.entries account ledger

theorem run_snapshotLog (d : Deployment) (is : List Invocation) :
    SnapshotLog (history (exec d) State.empty is) (run d State.empty is) :=
  history_invariant_along (fun _ _ _ _ hs (_ : True) h => snapshotLog_step hs h)
    ⟨fun _ _ => rfl, fun _ _ => rfl⟩ (along_true (exec d) State.empty is)

/-- Every later entry is at a later ledger, or repeats the entry. -/
def Ordered (history : List SnapshotEntry) : Prop :=
  history.Pairwise fun x y => x.ledger < y.ledger ∨ x = y

/-- An accepted `snapshot` continues the caller's history in order: its ledger is past all the
    ledgers there, or the same entry was written before. -/
def KeepsOrder (s : State) (i : Invocation) : Prop :=
  ∀ caller ledger, i.call = .snapshot caller ledger → ∀ x ∈ snapshotHistory caller s,
    x.ledger < ledger ∨ x = ⟨ledger, balance s caller⟩

theorem ordered_step {d : Deployment} {i : Invocation} {s t : State}
    (hs : ∀ account, Ordered (snapshotHistory account s)) (hi : KeepsOrder s i)
    (h : exec d i s = .ok t) : ∀ account, Ordered (snapshotHistory account t) := by
  intro account
  by_cases hcall : ∃ caller ledger, i.call = .snapshot caller ledger
  · obtain ⟨caller, ledger, hcall⟩ := hcall
    rw [(exec_snapshot hcall h).2]
    split
    · refine List.pairwise_append.mpr ⟨hs caller, List.pairwise_singleton _ _, ?_⟩
      intro x hx y hy
      rw [List.mem_singleton.mp hy]
      exact hi caller ledger hcall x hx
    · exact hs account
  · have hother : ∀ caller ledger, i.call ≠ .snapshot caller ledger :=
      fun caller ledger hc => hcall ⟨caller, ledger, hc⟩
    rw [snapshotHistory, (exec_snapshots h hother).2]
    exact hs account

section Lookup
variable {history : List SnapshotEntry}

theorem ledgerAt_of_lt {i : ℕ} (h : i < history.length) : ledgerAt history i = history[i].ledger := by
  simp [ledgerAt, h]

theorem Ordered.monotoneOn (h : Ordered history) :
    MonotoneOn (ledgerAt history) (Set.Ico 0 history.length) := by
  intro i hi j hj hij
  rw [ledgerAt_of_lt hi.2, ledgerAt_of_lt hj.2]
  rcases Nat.lt_or_eq_of_le hij with hlt | rfl
  · rcases List.pairwise_iff_getElem.mp h i j hi.2 hj.2 hlt with hledger | heq
    · exact hledger.le
    · rw [heq]
  · exact le_rfl

/-- In an ordered history there is one value for each ledger. -/
theorem Ordered.unique (h : Ordered history) {x y : SnapshotEntry} (hx : x ∈ history)
    (hy : y ∈ history) (hledger : x.ledger = y.ledger) : x = y := by
  obtain ⟨i, hi, rfl⟩ := List.getElem_of_mem hx
  obtain ⟨j, hj, rfl⟩ := List.getElem_of_mem hy
  rcases Nat.lt_trichotomy i j with hij | rfl | hij
  · rcases List.pairwise_iff_getElem.mp h i j hi hj hij with hlt | heq
    · omega
    · exact heq
  · rfl
  · rcases List.pairwise_iff_getElem.mp h j i hj hi hij with hlt | heq
    · omega
    · exact heq.symm

theorem lastEntry_eq_some {ledger : ℕ} {value : ℤ} (h : lastEntry history ledger = some value) :
    ⟨ledger, value⟩ ∈ history := by
  obtain ⟨x, hx, rfl⟩ := Option.map_eq_some_iff.mp h
  obtain ⟨hmem, hledger⟩ := List.mem_filter.mp (List.mem_of_getLast? hx)
  rw [← of_decide_eq_true hledger]
  exact hmem

theorem lastEntry_eq_none {ledger : ℕ} (h : lastEntry history ledger = none) :
    ∀ x ∈ history, x.ledger ≠ ledger := by
  intro x hx heq
  have hempty := List.getLast?_eq_none_iff.mp (Option.map_eq_none_iff.mp h)
  have hmem : x ∈ history.filter fun x => x.ledger = ledger :=
    List.mem_filter.mpr ⟨hx, decide_eq_true heq⟩
  rw [hempty] at hmem
  cases hmem

theorem lookup_eq_some {ledger : ℕ} {i : ℕ}
    (h : search (ledgerAt history) ledger 0 history.length = some i) :
    ∃ x ∈ history, x.ledger = ledger ∧ lookup history ledger = some x.balance := by
  obtain ⟨_, hi, hledger⟩ := search_sound h
  rw [ledgerAt_of_lt hi] at hledger
  refine ⟨history[i], List.getElem_mem hi, hledger, ?_⟩
  rw [lookup, h, Option.bind_some, List.getElem?_eq_getElem hi, Option.map_some]

/-- On an ordered history the search returns the last value for the ledger. -/
theorem Ordered.lookup_eq (h : Ordered history) (ledger : ℕ) :
    lookup history ledger = lastEntry history ledger := by
  cases hlast : lastEntry history ledger with
  | some value =>
    have hmem := lastEntry_eq_some hlast
    obtain ⟨k, hk, hentry⟩ := List.getElem_of_mem hmem
    have hkey : ledgerAt history k = ledger := by rw [ledgerAt_of_lt hk, hentry]
    obtain ⟨i, hi⟩ := search_complete h.monotoneOn (Nat.zero_le k) hk hkey
    obtain ⟨x, hx, hledger, hvalue⟩ := lookup_eq_some hi
    rw [hvalue, h.unique hx hmem hledger]
  | none =>
    cases hsearch : search (ledgerAt history) ledger 0 history.length with
    | none => rw [lookup, hsearch, Option.bind_none]
    | some i =>
      obtain ⟨x, hx, hledger, _⟩ := lookup_eq_some hsearch
      exact absurd hledger (lastEntry_eq_none hlast x hx)

/-- Where no ledger occurs twice, the search is right for every ledger only if they are in
    increasing order. -/
theorem increasing_of_lookup (hnodup : (history.map (·.ledger)).Nodup)
    (h : ∀ ledger, lookup history ledger = lastEntry history ledger) :
    (history.map (·.ledger)).Pairwise (· < ·) := by
  have hlocates : Locates (ledgerAt history) 0 history.length := by
    rintro i ⟨_, hi⟩
    cases hsearch : search (ledgerAt history) (ledgerAt history i) 0 history.length with
    | none =>
      have hlast := h (ledgerAt history i)
      rw [lookup, hsearch, Option.bind_none] at hlast
      exact absurd (ledgerAt_of_lt hi).symm
        (lastEntry_eq_none hlast.symm history[i] (List.getElem_mem hi))
    | some j =>
      obtain ⟨_, hj, hkey⟩ := search_sound hsearch
      rw [ledgerAt_of_lt hj, ledgerAt_of_lt hi] at hkey
      have hlength : (history.map (·.ledger)).length = history.length := List.length_map ..
      have hsame : (history.map (·.ledger))[j] = (history.map (·.ledger))[i] := by
        rw [List.getElem_map, List.getElem_map]
        exact hkey
      rw [hnodup.getElem_inj_iff.mp hsame]
  have hmono := strictMonoOn_of_locates hlocates
  rw [List.pairwise_map, List.pairwise_iff_getElem]
  intro i j hi hj hij
  have hlt := hmono ⟨Nat.zero_le i, hi⟩ ⟨Nat.zero_le j, hj⟩ hij
  rwa [ledgerAt_of_lt hi, ledgerAt_of_lt hj] at hlt

theorem ordered_of_increasing (h : (history.map (·.ledger)).Pairwise (· < ·)) : Ordered history :=
  (List.pairwise_map.mp h).imp fun hlt => .inl hlt

end Lookup

theorem SnapshotLog.balanceAt_eq {past : List (Entry State Invocation)} {s : State}
    (hs : SnapshotLog past s) (account : Address) (ledger : ℕ) :
    balanceAt account ledger s = lookup (snapshotHistory account s) ledger := by
  have hentries := hs.entries account ledger
  unfold balanceAt snapshotHistory at *
  cases hhistory : s.snapshotHistory account with
  | some history => rfl
  | none =>
    rw [hhistory] at hentries
    rw [hentries, Option.getD_none, lookup, search_empty (by simp)]
    rfl

/-- In every run whose snapshots are each taken in order, `balance_at` answers what was recorded
    under the direct key, which is the balance at the last snapshot for that ledger. For an
    account whose snapshots are for different ledgers, increasing order is also necessary. -/
theorem snapshot_lookup (d : Deployment) (is : List Invocation) :
    ((∀ e ∈ history (exec d) State.empty is, KeepsOrder e.before e.invocation) →
      ∀ account ledger,
        balanceAt account ledger (run d State.empty is) =
            (run d State.empty is).snapshot (account, ledger) ∧
          (run d State.empty is).snapshot (account, ledger) =
            lastSnapshot account ledger (history (exec d) State.empty is)) ∧
    (∀ account, ((snapshotHistory account (run d State.empty is)).map (·.ledger)).Nodup →
      ((∀ ledger, balanceAt account ledger (run d State.empty is) =
          (run d State.empty is).snapshot (account, ledger)) ↔
        ((snapshotHistory account (run d State.empty is)).map (·.ledger)).Pairwise (· < ·))) := by
  have hlog := run_snapshotLog d is
  refine ⟨fun horder account ledger => ?_, fun account hnodup => ?_⟩
  · have hordered : ∀ account, Ordered (snapshotHistory account (run d State.empty is)) :=
      run_invariant_along (fun _ _ _ hs hi h => ordered_step hs (hi _ h) h)
        (fun _ => List.Pairwise.nil) (along_of_history horder)
    rw [hlog.balanceAt_eq, (hordered account).lookup_eq, ← hlog.entries]
    exact ⟨rfl, hlog.direct account ledger⟩
  · simp only [hlog.balanceAt_eq, hlog.entries]
    constructor
    · exact increasing_of_lookup hnodup
    · exact fun hincreasing ledger => (ordered_of_increasing hincreasing).lookup_eq ledger

def demoSnapshot (ledger : ℕ) : Invocation :=
  { sequence := 5, auths := [demoAlice], call := .snapshot demoAlice ledger }

theorem snapshot_lookup_demo :
    balanceAt demoAlice 10 (run demoDeployment State.empty
        [demoCreate none, demoMint, demoSnapshot 10, demoSnapshot 20]) =
      (run demoDeployment State.empty
        [demoCreate none, demoMint, demoSnapshot 10, demoSnapshot 20]).snapshot (demoAlice, 10) := by
  have horder : ∀ e ∈ history (exec demoDeployment) State.empty
      [demoCreate none, demoMint, demoSnapshot 10, demoSnapshot 20],
      KeepsOrder e.before e.invocation := by
    intro e he caller ledger hcall x hx
    rcases List.mem_cons.mp he with rfl | he
    · cases hcall
    · rcases List.mem_cons.mp he with rfl | he
      · cases hcall
      · rcases List.mem_cons.mp he with rfl | he
        · cases hcall
          cases hx
        · rw [List.mem_singleton.mp he] at hcall hx
          cases hcall
          rw [List.mem_singleton.mp hx]
          exact .inl (by decide)
  exact ((snapshot_lookup demoDeployment
    [demoCreate none, demoMint, demoSnapshot 10, demoSnapshot 20]).1 horder demoAlice 10).1

/-- A snapshot for an earlier ledger hides the one for ledger 20. -/
theorem snapshot_hidden :
    balanceAt demoAlice 20 (run demoDeployment State.empty
        [demoCreate none, demoMint, demoSnapshot 20, demoSnapshot 10]) = none ∧
      (run demoDeployment State.empty
        [demoCreate none, demoMint, demoSnapshot 20, demoSnapshot 10]).snapshot (demoAlice, 20) =
          some 100 := by
  have hmid : ledgerAt [⟨20, 100⟩, ⟨10, 100⟩] 1 < 20 := by decide
  have hmissed : lookup [⟨20, 100⟩, ⟨10, 100⟩] 20 = none := by
    rw [lookup, search_below (by decide) hmid, search_empty (by decide)]
    rfl
  exact ⟨hmissed, rfl⟩

end SorobanKit.Token
