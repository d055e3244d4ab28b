import SorobanKit.HostWindows
import SorobanKit.WrappedTokenContract

set_option autoImplicit false

/-!
# The rate limiter

`check_and_record` counts the calls of every address under every namespace, each pair with a window
of its own. The wrapped token keeps one such entry; this is the limiter with its storage, where
stored entries are never archived.
-/
namespace SorobanKit.CommonLimiter
open HostInteger HostInvocation HostWindows

/-- A namespace and an address. -/
abbrev Key := ℕ × Address

/-- Where the window of each key started, and its calls since. -/
abbrev Store := Finmap (fun _ : Key => ℕ × ℕ)

section Limiter
variable (window maxCalls : ℕ)

/-- Whether the call is allowed, with what it writes. -/
def checkAndRecord (key : Key) (now : ℕ) (s : Store) : Store × Bool :=
  match WrappedToken.checkAndRecord window maxCalls now (s.lookup key) with
  | some entry => (s.insert key entry, true)
  | none => (s, false)

structure Call where
  key : Key
  ledger : ℕ
  deriving DecidableEq, Repr

/-- The calls of a sequence with their answers. -/
def answers : Store → List Call → List (Call × Bool)
  | _, [] => []
  | s, c :: calls =>
    let (s, allowed) := checkAndRecord window maxCalls c.key c.ledger s
    (c, allowed) :: answers s calls

/-- What the calls leave in the storage. -/
def storeAfter (s : Store) (calls : List Call) : Store :=
  calls.foldl (fun s c => (checkAndRecord window maxCalls c.key c.ledger s).1) s

end Limiter

/-- The ledgers of the calls of a key that were allowed. -/
def acceptedLedgers (key : Key) (answered : List (Call × Bool)) : List ℕ :=
  answered.filterMap fun x => if x.1.key = key ∧ x.2 = true then some x.1.ledger else none

section Answers
variable {window maxCalls : ℕ} {key : Key} {s : Store} {calls : List Call} {c : Call}

theorem answers_append (s : Store) (calls later : List Call) :
    answers window maxCalls s (calls ++ later) = answers window maxCalls s calls ++
      answers window maxCalls (storeAfter window maxCalls s calls) later := by
  induction calls generalizing s with
  | nil => rfl
  | cons c calls ih =>
    change _ :: answers window maxCalls _ (calls ++ later) = _ :: _ ++ _
    rw [ih]
    rfl

theorem answers_calls (s : Store) (calls : List Call) :
    (answers window maxCalls s calls).map Prod.fst = calls := by
  induction calls generalizing s with
  | nil => rfl
  | cons c calls ih =>
    change c :: (answers window maxCalls _ calls).map Prod.fst = _
    rw [ih]

theorem storeAfter_snoc (s : Store) (calls : List Call) (c : Call) :
    storeAfter window maxCalls s (calls ++ [c]) =
      (checkAndRecord window maxCalls c.key c.ledger (storeAfter window maxCalls s calls)).1 := by
  unfold storeAfter
  rw [List.foldl_append, List.foldl_cons, List.foldl_nil]

theorem lookup_other (hkey : c.key ≠ key) :
    (checkAndRecord window maxCalls c.key c.ledger s).1.lookup key = s.lookup key := by
  unfold checkAndRecord
  split
  · exact Finmap.lookup_insert_of_ne _ (Ne.symm hkey)
  · rfl

theorem lookup_own :
    (checkAndRecord window maxCalls key c.ledger s).1.lookup key =
      (WrappedToken.checkAndRecord window maxCalls c.ledger (s.lookup key)).or (s.lookup key) := by
  unfold checkAndRecord
  split
  · next entry h =>
    rw [h]
    exact Finmap.lookup_insert _
  · next h =>
    rw [h]
    rfl

theorem answer_eq (key : Key) (now : ℕ) (s : Store) :
    (checkAndRecord window maxCalls key now s).2 =
      (WrappedToken.checkAndRecord window maxCalls now (s.lookup key)).isSome := by
  unfold checkAndRecord
  split
  · next h => rw [h]; rfl
  · next h => rw [h]; rfl

theorem answers_filter (key : Key) {s t : Store} (hsame : s.lookup key = t.lookup key)
    (calls : List Call) :
    (answers window maxCalls s calls).filter (fun x => x.1.key = key) =
      answers window maxCalls t (calls.filter fun c => c.key = key) := by
  induction calls generalizing s t with
  | nil => rfl
  | cons c calls ih =>
    have hanswers : answers window maxCalls s (c :: calls) =
        (c, (checkAndRecord window maxCalls c.key c.ledger s).2) ::
          answers window maxCalls (checkAndRecord window maxCalls c.key c.ledger s).1 calls := rfl
    rw [hanswers]
    by_cases hkey : c.key = key
    · subst hkey
      have hnext : (checkAndRecord window maxCalls c.key c.ledger s).1.lookup c.key =
          (checkAndRecord window maxCalls c.key c.ledger t).1.lookup c.key := by
        rw [lookup_own, lookup_own, hsame]
      rw [List.filter_cons_of_pos (by simp), List.filter_cons_of_pos (by simp), ih hnext,
        answer_eq, hsame, ← answer_eq]
      rfl
    · have hnext : (checkAndRecord window maxCalls c.key c.ledger s).1.lookup key = t.lookup key := by
        rw [lookup_other hkey, hsame]
      rw [List.filter_cons_of_neg (by simp [hkey]), List.filter_cons_of_neg (by simp [hkey]),
        ih hnext]

end Answers

section Windows
variable {window maxCalls : ℕ} {key : Key} {calls : List Call} {accepted : List ℕ} {now : ℕ}

/-- The entry of a key is the window of its accepted calls. -/
def Kept (window maxCalls : ℕ) (accepted : List ℕ) : Option (ℕ × ℕ) → Prop
  | none => accepted = []
  | some (start, count) => Counted window maxCalls accepted start count

/-- One answer: an accepted call is counted, and before a denied one the window was full. -/
theorem Kept.step {entry : Option (ℕ × ℕ)} (h : Kept window maxCalls accepted entry)
    (hwindow : 1 ≤ window) (hmax : 1 ≤ maxCalls) (hbound : maxCalls ≤ u32Max)
    (hpast : ∀ t ∈ accepted, t ≤ now) (hroom : now + window < u32Max) :
    match WrappedToken.checkAndRecord window maxCalls now entry with
    | some entry => Kept window maxCalls (accepted ++ [now]) (some entry)
    | none => maxCalls ≤ countIn (now + 1 - window) (now + 1) accepted := by
  unfold WrappedToken.checkAndRecord
  cases entry with
  | none =>
    have hopened : WrappedToken.openWindow window now 0 ((none : Option (ℕ × ℕ)).getD (now, 0)) =
        (now, 0) := ite_self _
    rw [hopened]
    dsimp only
    have hnil : accepted = [] := h
    rw [if_neg (by omega), hnil]
    exact counted_first hwindow hmax now
  | some entry =>
    obtain ⟨start, count⟩ := entry
    have hcounted : Counted window maxCalls accepted start count := h
    have hstart := hpast start hcounted.started
    have hend : saturatingAddU32 start window = start + window := min_eq_left (by omega)
    rw [Option.getD_some]
    unfold WrappedToken.openWindow
    dsimp only
    rw [hend]
    by_cases hpassed : start + window ≤ now
    · rw [if_pos hpassed]
      dsimp only
      rw [if_neg (by omega)]
      exact hcounted.restart hwindow hmax hpassed
    · rw [if_neg hpassed]
      dsimp only
      by_cases hfull : maxCalls ≤ count
      · rw [if_pos hfull]
        have hcount := hcounted.count_eq
        have hrecent : countIn start (start + window) accepted ≤
            countIn (now + 1 - window) (now + 1) accepted := by
          apply List.countP_mono_left
          intro t ht hin
          have hle := hpast t ht
          rw [decide_eq_true_eq] at hin ⊢
          omega
        dsimp only
        omega
      · have hadd : saturatingAddU32 count 1 = count + 1 := min_eq_left (by omega)
        rw [if_neg hfull, hadd]
        exact hcounted.next hstart (by omega) (by omega)

theorem acceptedLedgers_snoc (answered : List (Call × Bool)) (c : Call) (allowed : Bool) :
    acceptedLedgers key (answered ++ [(c, allowed)]) = acceptedLedgers key answered ++
      if c.key = key ∧ allowed = true then [c.ledger] else [] := by
  unfold acceptedLedgers
  rw [List.filterMap_append]
  by_cases h : c.key = key ∧ allowed = true
  · simp [h]
  · simp [h]

theorem ledger_of_accepted {s : Store} {t : ℕ}
    (h : t ∈ acceptedLedgers key (answers window maxCalls s calls)) : ∃ c ∈ calls, c.ledger = t := by
  obtain ⟨x, hx, hsome⟩ := List.mem_filterMap.mp h
  have hcalls := @answers_calls window maxCalls s calls
  have hcall : x.1 ∈ calls := by
    rw [← hcalls]
    exact List.mem_map_of_mem hx
  split at hsome
  · cases hsome
    exact ⟨x.1, hcall, rfl⟩
  · cases hsome

/-- What holds of a sequence of calls, whenever one more is made. -/
structure Served (window maxCalls : ℕ) (calls : List Call) : Prop where
  kept : ∀ key, Kept window maxCalls (acceptedLedgers key (answers window maxCalls ∅ calls))
    ((storeAfter window maxCalls ∅ calls).lookup key)
  denied : ∀ past c later, answers window maxCalls ∅ calls = past ++ (c, false) :: later →
    maxCalls ≤ countIn (c.ledger + 1 - window) (c.ledger + 1) (acceptedLedgers c.key past)

theorem answers_snoc (s : Store) (calls : List Call) (c : Call) :
    answers window maxCalls s (calls ++ [c]) = answers window maxCalls s calls ++
      [(c, (WrappedToken.checkAndRecord window maxCalls c.ledger
        ((storeAfter window maxCalls s calls).lookup c.key)).isSome)] := by
  rw [answers_append, ← answer_eq]
  rfl

theorem Served.snoc {c : Call} (h : Served window maxCalls calls) (hwindow : 1 ≤ window)
    (hmax : 1 ≤ maxCalls) (hbound : maxCalls ≤ u32Max) (htime : ∀ d ∈ calls, d.ledger ≤ c.ledger)
    (hroom : c.ledger + window < u32Max) : Served window maxCalls (calls ++ [c]) := by
  have hpast : ∀ t ∈ acceptedLedgers c.key (answers window maxCalls ∅ calls), t ≤ c.ledger := by
    intro t ht
    obtain ⟨d, hd, rfl⟩ := ledger_of_accepted ht
    exact htime d hd
  have hstep := (h.kept c.key).step hwindow hmax hbound hpast hroom
  have hanswers := @answers_snoc window maxCalls ∅ calls c
  constructor
  · intro key
    rw [hanswers, acceptedLedgers_snoc, storeAfter_snoc]
    by_cases hkey : c.key = key
    · subst hkey
      rw [lookup_own]
      cases hentry : WrappedToken.checkAndRecord window maxCalls c.ledger
          ((storeAfter window maxCalls ∅ calls).lookup c.key) with
      | none =>
        rw [if_neg (by simp), List.append_nil]
        exact h.kept c.key
      | some entry =>
        rw [hentry] at hstep
        rw [if_pos ⟨rfl, rfl⟩]
        exact hstep
    · rw [lookup_other hkey, if_neg (by simp [hkey]), List.append_nil]
      exact h.kept key
  · intro past d later hsplit
    rw [hanswers] at hsplit
    rcases List.eq_nil_or_concat' later with rfl | ⟨later, last, rfl⟩
    · obtain ⟨rfl, hlast⟩ := List.append_inj' hsplit rfl
      rw [List.singleton_inj, Prod.mk.injEq] at hlast
      obtain ⟨rfl, hnone⟩ := hlast
      rw [Option.isSome_eq_false_iff, Option.isNone_iff_eq_none] at hnone
      rw [hnone] at hstep
      exact hstep
    · rw [← List.cons_append, ← List.append_assoc] at hsplit
      exact h.denied past d later (List.append_inj' hsplit rfl).1

theorem served_of_calls (hwindow : 1 ≤ window) (hmax : 1 ≤ maxCalls) (hbound : maxCalls ≤ u32Max)
    (htime : calls.Pairwise fun c d => c.ledger ≤ d.ledger)
    (hroom : ∀ c ∈ calls, c.ledger + window < u32Max) : Served window maxCalls calls := by
  induction calls using List.reverseRecOn with
  | nil =>
    constructor
    · intro key
      rfl
    · intro past c later hsplit
      simp [answers] at hsplit
  | append_singleton calls c ih =>
    obtain ⟨htime, _, hlate⟩ := List.pairwise_append.mp htime
    have hbefore : ∀ d ∈ calls, d.ledger ≤ c.ledger := fun d hd =>
      hlate d hd c (List.mem_singleton_self c)
    have hrest := ih htime fun d hd => hroom d (List.mem_append_left _ hd)
    exact hrest.snoc hwindow hmax hbound hbefore
      (hroom c (List.mem_append_right _ (List.mem_singleton_self c)))

/-- In every span of one window's length fewer than twice `max_calls` calls of a key are allowed, a
    call is denied only after `max_calls` of them, and no key notices the calls for others. -/
theorem limiter_windows (hwindow : 1 ≤ window) (hmax : 1 ≤ maxCalls) (hbound : maxCalls ≤ u32Max)
    (htime : calls.Pairwise fun c d => c.ledger ≤ d.ledger)
    (hroom : ∀ c ∈ calls, c.ledger + window < u32Max) :
    (∀ key first, countIn first (first + window)
      (acceptedLedgers key (answers window maxCalls ∅ calls)) ≤ 2 * maxCalls - 1) ∧
    (∀ past c later, answers window maxCalls ∅ calls = past ++ (c, false) :: later →
      maxCalls ≤ countIn (c.ledger + 1 - window) (c.ledger + 1) (acceptedLedgers c.key past)) ∧
    ∀ key, (answers window maxCalls ∅ calls).filter (fun x => x.1.key = key) =
      answers window maxCalls ∅ (calls.filter fun c => c.key = key) := by
  have hserved := served_of_calls hwindow hmax hbound htime hroom
  refine ⟨?_, hserved.denied, fun key => answers_filter key rfl calls⟩
  intro key first
  have hkept := hserved.kept key
  cases hentry : (storeAfter window maxCalls ∅ calls).lookup key with
  | none =>
    rw [hentry] at hkept
    have hnil : acceptedLedgers key (answers window maxCalls ∅ calls) = [] := hkept
    rw [hnil]
    exact Nat.zero_le _
  | some entry =>
    rw [hentry] at hkept
    have hspread := Counted.spread hkept first
    omega

end Windows

/-- Two calls in ten ledgers: the second and third window of the first key share a span, in which
    three of its calls are allowed. -/
def demoCalls : List Call :=
  [⟨(1, ⟨7⟩), 1⟩, ⟨(1, ⟨7⟩), 9⟩, ⟨(1, ⟨7⟩), 10⟩, ⟨(2, ⟨7⟩), 10⟩, ⟨(1, ⟨7⟩), 11⟩, ⟨(1, ⟨7⟩), 11⟩,
    ⟨(1, ⟨7⟩), 18⟩]

theorem limiter_windows_demo :
    (answers 10 2 ∅ demoCalls).map Prod.snd = [true, true, false, true, true, true, false] ∧
    countIn 9 19 (acceptedLedgers (1, ⟨7⟩) (answers 10 2 ∅ demoCalls)) = 3 ∧
    ∀ key first, countIn first (first + 10)
      (acceptedLedgers key (answers 10 2 ∅ demoCalls)) ≤ 3 := by
  refine ⟨by decide +kernel, by decide +kernel, ?_⟩
  exact (@limiter_windows 10 2 demoCalls (by decide) (by decide) (by decide) (by decide)
    (by decide)).1

end SorobanKit.CommonLimiter
