import Mathlib.Data.List.Basic

set_option autoImplicit false

/-!
# Runs of invocations with rollback

`exec i s` is what invocation `i` does in state `s`. The host commits the state of an
invocation that returns and discards the one of an invocation that fails, so a run is
a fold over the invocations, and every reachable state is the end of a run.
-/
namespace SorobanKit.HostRuns

variable {σ ι ε : Type}

def step (exec : ι → σ → Except ε σ) (s : σ) (i : ι) : σ :=
  match exec i s with
  | .ok t => t
  | .error _ => s

def run (exec : ι → σ → Except ε σ) (s : σ) (is : List ι) : σ :=
  is.foldl (step exec) s

/-- Every invocation of the run meets `P` in the state it is made in. -/
def Along (exec : ι → σ → Except ε σ) (P : σ → ι → Prop) : σ → List ι → Prop
  | _, [] => True
  | s, i :: is => P s i ∧ Along exec P (step exec s i) is

variable {exec : ι → σ → Except ε σ}

@[simp] theorem run_nil (s : σ) : run exec s [] = s := rfl

@[simp] theorem run_cons (s : σ) (i : ι) (is : List ι) :
    run exec s (i :: is) = run exec (step exec s i) is := rfl

theorem run_cons_of_ok {s t : σ} {i : ι} (h : exec i s = .ok t) (is : List ι) :
    run exec s (i :: is) = run exec t is := by
  rw [run_cons, step, h]

theorem run_append (s : σ) (is js : List ι) :
    run exec s (is ++ js) = run exec (run exec s is) js :=
  List.foldl_append

/-- A step either commits what the invocation computed or leaves the state alone. -/
theorem step_cases (exec : ι → σ → Except ε σ) (s : σ) (i : ι) :
    exec i s = .ok (step exec s i) ∨ step exec s i = s := by
  unfold step
  cases h : exec i s with
  | ok t => exact .inl rfl
  | error e => exact .inr rfl

theorem step_preserves {I : σ → Prop} {s : σ} {i : ι}
    (h : ∀ t, exec i s = .ok t → I t) (hs : I s) : I (step exec s i) := by
  rcases step_cases exec s i with hok | hid
  · exact h _ hok
  · rw [hid]
    exact hs

/-- The invariant rule, for runs whose invocations all meet a condition. -/
theorem run_invariant_along {I : σ → Prop} {P : σ → ι → Prop}
    (hstep : ∀ s i t, I s → P s i → exec i s = .ok t → I t)
    {s : σ} {is : List ι} (hs : I s) (hP : Along exec P s is) : I (run exec s is) := by
  induction is generalizing s with
  | nil => exact hs
  | cons i is ih =>
    refine ih (step_preserves (fun t ht => hstep s i t hs hP.1 ht) hs) hP.2

theorem run_invariant {I : σ → Prop} (hstep : ∀ s i t, I s → exec i s = .ok t → I t)
    {s : σ} (hs : I s) (is : List ι) : I (run exec s is) := by
  induction is generalizing s with
  | nil => exact hs
  | cons i is ih => exact ih (step_preserves (fun t ht => hstep s i t hs ht) hs)

theorem Along.mono {P Q : σ → ι → Prop} (h : ∀ s i, P s i → Q s i) {s : σ} {is : List ι}
    (hP : Along exec P s is) : Along exec Q s is := by
  induction is generalizing s with
  | nil => trivial
  | cons i is ih => exact ⟨h s i hP.1, ih hP.2⟩

theorem along_true (exec : ι → σ → Except ε σ) (s : σ) (is : List ι) :
    Along exec (fun _ _ => True) s is := by
  induction is generalizing s with
  | nil => trivial
  | cons i is ih => exact ⟨trivial, ih _⟩

/-- A condition on the invocations alone joins one on the states they are made in. -/
theorem Along.and_forall {P : σ → ι → Prop} {Q : ι → Prop} {s : σ} {is : List ι}
    (hP : Along exec P s is) (hQ : ∀ i ∈ is, Q i) : Along exec (fun s i => P s i ∧ Q i) s is := by
  induction is generalizing s with
  | nil => trivial
  | cons i is ih =>
    obtain ⟨hi, hrest⟩ := List.forall_mem_cons.mp hQ
    exact ⟨⟨hP.1, hi⟩, ih hP.2 hrest⟩

/-- A property of every state that the run passes through. -/
theorem along_of_prefixes {I : σ → Prop} {s : σ} {is : List ι}
    (h : ∀ js, js <+: is → I (run exec s js)) : Along exec (fun s _ => I s) s is := by
  induction is generalizing s with
  | nil => trivial
  | cons i is ih =>
    refine ⟨h [] List.nil_prefix, ih fun js hjs => ?_⟩
    have hnext := h (i :: js) (List.cons_prefix_cons.mpr ⟨rfl, hjs⟩)
    rwa [run_cons] at hnext

theorem Along.and {P Q : σ → ι → Prop} {s : σ} {is : List ι} (hP : Along exec P s is)
    (hQ : Along exec Q s is) : Along exec (fun s i => P s i ∧ Q s i) s is := by
  induction is generalizing s with
  | nil => trivial
  | cons i is ih => exact ⟨⟨hP.1, hQ.1⟩, ih hP.2 hQ.2⟩

/-- Along a run, and along what follows it. -/
theorem along_append {P : σ → ι → Prop} {s : σ} {is js : List ι} :
    Along exec P s (is ++ js) ↔ Along exec P s is ∧ Along exec P (run exec s is) js := by
  induction is generalizing s with
  | nil => exact Iff.of_eq (true_and _).symm
  | cons i is ih => exact (and_congr_right fun _ => ih).trans and_assoc.symm

/-- The condition at one of the invocations, in the state that the run has reached there. -/
theorem Along.at_split {P : σ → ι → Prop} {s : σ} {is js : List ι} {i : ι}
    (h : Along exec P s (is ++ i :: js)) : Along exec P s is ∧ P (run exec s is) i := by
  obtain ⟨hpast, hi, _⟩ := along_append.mp h
  exact ⟨hpast, hi⟩

/-- A clock in the state that invocations set to their own time at most is behind every
    later invocation, when time does not run backwards. -/
theorem along_clock {clock : σ → ℕ} {time : ι → ℕ}
    (hstep : ∀ s i t, exec i s = .ok t → clock t ≤ max (clock s) (time i)) {s : σ} {is : List ι}
    (hstart : ∀ i ∈ is, clock s ≤ time i) (htime : is.Pairwise (fun i j => time i ≤ time j)) :
    Along exec (fun s i => clock s ≤ time i) s is := by
  induction is generalizing s with
  | nil => trivial
  | cons i is ih =>
    rw [List.pairwise_cons] at htime
    obtain ⟨hlater, htime⟩ := htime
    obtain ⟨hi, hrest⟩ := List.forall_mem_cons.mp hstart
    refine ⟨hi, ih (fun j hj => ?_) htime⟩
    have hj' := hlater j hj
    have hold := hrest j hj
    apply step_preserves (I := fun t => clock t ≤ time j) (fun t ht => ?_) hold
    have hnext := hstep s i t ht
    omega

/-- The same invocations, with a history next to the state: `note` is applied to it for
    every invocation that returns. -/
def noting {η : Type} (exec : ι → σ → Except ε σ) (note : ι → η → η) (i : ι) (x : σ × η) :
    Except ε (σ × η) :=
  (exec i x.1).map fun t => (t, note i x.2)

theorem noting_ok {η : Type} {note : ι → η → η} {i : ι} {x y : σ × η}
    (h : noting exec note i x = .ok y) : exec i x.1 = .ok y.1 ∧ y.2 = note i x.2 := by
  unfold noting at h
  cases hexec : exec i x.1 with
  | error e =>
    rw [hexec] at h
    cases h
  | ok t =>
    rw [hexec] at h
    cases h
    exact ⟨rfl, rfl⟩

/-- The history does not influence the run. -/
theorem run_noting_fst {η : Type} (note : ι → η → η) (x : σ × η) (is : List ι) :
    (run (noting exec note) x is).1 = run exec x.1 is := by
  induction is generalizing x with
  | nil => rfl
  | cons i is ih =>
    have hstep : (step (noting exec note) x i).1 = step exec x.1 i := by
      unfold step noting
      cases exec i x.1 <;> rfl
    rw [run_cons, run_cons, ih, hstep]

/-- One invocation that returned, between the states it was made in and it left behind. -/
structure Entry (σ ι : Type) where
  before : σ
  invocation : ι
  after : σ

/-- The invocations of a run that returned, in order. -/
def history (exec : ι → σ → Except ε σ) : σ → List ι → List (Entry σ ι)
  | _, [] => []
  | s, i :: is =>
    match exec i s with
    | .ok t => ⟨s, i, t⟩ :: history exec t is
    | .error _ => history exec s is

theorem mem_of_mem_history {s : σ} {is : List ι} {e : Entry σ ι} (h : e ∈ history exec s is) :
    e.invocation ∈ is := by
  induction is generalizing s with
  | nil => cases h
  | cons i is ih =>
    unfold history at h
    split at h
    · rcases List.mem_cons.mp h with rfl | h
      · exact List.mem_cons_self
      · exact List.mem_cons_of_mem _ (ih h)
    · exact List.mem_cons_of_mem _ (ih h)

/-- What every invocation that returned met, every invocation meets if it returns. -/
theorem along_of_history {Q : σ → ι → Prop} {s : σ} {is : List ι}
    (h : ∀ e ∈ history exec s is, Q e.before e.invocation) :
    Along exec (fun s i => ∀ t, exec i s = .ok t → Q s i) s is := by
  induction is generalizing s with
  | nil => trivial
  | cons i is ih =>
    unfold history at h
    cases hexec : exec i s with
    | ok t =>
      simp only [hexec] at h
      obtain ⟨hi, hrest⟩ := List.forall_mem_cons.mp h
      refine ⟨fun _ _ => hi, ?_⟩
      rw [step, hexec]
      exact ih hrest
    | error e =>
      simp only [hexec] at h
      refine ⟨fun t ht => absurd (hexec.symm.trans ht) (by simp), ?_⟩
      rw [step, hexec]
      exact ih h

/-- The invariant rule for a state together with the history that led to it, when time does
    not run backwards: `I now` holds from time `now` on, until the next invocation. -/
theorem history_invariant_timed (time : ι → ℕ) {I : ℕ → List (Entry σ ι) → σ → Prop}
    {P : σ → ι → Prop} (hlater : ∀ now later past s, now ≤ later → I now past s → I later past s)
    (hstep : ∀ past s i t, I (time i) past s → P s i → exec i s = .ok t →
      I (time i) (past ++ [⟨s, i, t⟩]) t)
    {n : ℕ} {s : σ} {is : List ι} (hs : I n [] s) (hP : Along exec P s is)
    (hstart : ∀ i ∈ is, n ≤ time i) (htime : is.Pairwise (fun i j => time i ≤ time j)) :
    ∃ later, I later (history exec s is) (run exec s is) := by
  suffices hgen : ∀ past, I n past s →
      ∃ later, I later (past ++ history exec s is) (run exec s is) by
    simpa using hgen [] hs
  clear hs
  induction is generalizing s n with
  | nil => exact fun past hpast => ⟨n, by simpa [history] using hpast⟩
  | cons i is ih =>
    intro past hpast
    obtain ⟨hi, hP⟩ := hP
    obtain ⟨hlate, htime⟩ := List.pairwise_cons.mp htime
    have hnow := hlater n (time i) past s (hstart i List.mem_cons_self) hpast
    rw [run_cons]
    unfold step at hP ⊢
    unfold history
    cases hexec : exec i s with
    | ok t =>
      simp only [hexec] at hP ⊢
      rw [List.append_cons]
      exact ih hP hlate htime _ (hstep past s i t hnow hi hexec)
    | error e =>
      simp only [hexec] at hP ⊢
      exact ih hP hlate htime past hnow

/-- What is known of any one entry: the invariant held when it was made, and it is a step. -/
theorem history_split_timed (time : ι → ℕ) {I : ℕ → List (Entry σ ι) → σ → Prop}
    {P : σ → ι → Prop} (hlater : ∀ now later past s, now ≤ later → I now past s → I later past s)
    (hstep : ∀ past s i t, I (time i) past s → P s i → exec i s = .ok t →
      I (time i) (past ++ [⟨s, i, t⟩]) t)
    {n : ℕ} {s : σ} {is : List ι} (hs : I n [] s) (hP : Along exec P s is)
    (hstart : ∀ i ∈ is, n ≤ time i) (htime : is.Pairwise (fun i j => time i ≤ time j))
    {past later : List (Entry σ ι)} {e : Entry σ ι}
    (h : history exec s is = past ++ e :: later) :
    I (time e.invocation) past e.before ∧ P e.before e.invocation ∧
      exec e.invocation e.before = .ok e.after := by
  -- the property of all splits is itself an invariant of histories
  let Splits : ℕ → List (Entry σ ι) → σ → Prop := fun now all t =>
    I now all t ∧ ∀ past e later, all = past ++ e :: later →
      I (time e.invocation) past e.before ∧ P e.before e.invocation ∧
        exec e.invocation e.before = .ok e.after
  have hnext : ∀ all t i u, Splits (time i) all t → P t i → exec i t = .ok u →
      Splits (time i) (all ++ [⟨t, i, u⟩]) u := by
    rintro all t i u ⟨hall, hold⟩ hi hexec
    refine ⟨hstep all t i u hall hi hexec, fun past e later heq => ?_⟩
    rcases List.eq_nil_or_concat' later with rfl | ⟨later, last, rfl⟩
    · obtain ⟨rfl, hlast⟩ := List.append_inj' heq rfl
      cases hlast
      exact ⟨hall, hi, hexec⟩
    · rw [← List.cons_append, ← List.append_assoc] at heq
      exact hold past e later (List.append_inj' heq rfl).1
  have hmono : ∀ now later past s, now ≤ later → Splits now past s → Splits later past s :=
    fun now later past s hle hsplits => ⟨hlater now later past s hle hsplits.1, hsplits.2⟩
  have hfirst : Splits n [] s := ⟨hs, fun past e later hnil => by simp at hnil⟩
  obtain ⟨_, hsplits⟩ := history_invariant_timed time hmono hnext hfirst hP hstart htime
  exact hsplits.2 past e later h

/-- The same rule where time plays no role. -/
theorem history_invariant_along {I : List (Entry σ ι) → σ → Prop} {P : σ → ι → Prop}
    (hstep : ∀ past s i t, I past s → P s i → exec i s = .ok t → I (past ++ [⟨s, i, t⟩]) t)
    {s : σ} {is : List ι} (hs : I [] s) (hP : Along exec P s is) :
    I (history exec s is) (run exec s is) := by
  obtain ⟨_, hrun⟩ := history_invariant_timed (fun _ => 0) (I := fun _ past s => I past s)
    (fun _ _ _ _ _ h => h) hstep (n := 0) hs hP (fun _ _ => Nat.le_refl 0)
    (List.pairwise_of_forall fun _ _ => Nat.le_refl 0)
  exact hrun

theorem history_split {I : List (Entry σ ι) → σ → Prop} {P : σ → ι → Prop}
    (hstep : ∀ past s i t, I past s → P s i → exec i s = .ok t → I (past ++ [⟨s, i, t⟩]) t)
    {s : σ} {is : List ι} (hs : I [] s) (hP : Along exec P s is)
    {past later : List (Entry σ ι)} {e : Entry σ ι}
    (h : history exec s is = past ++ e :: later) :
    I past e.before ∧ P e.before e.invocation ∧ exec e.invocation e.before = .ok e.after :=
  history_split_timed (fun _ => 0) (I := fun _ past s => I past s)
    (fun _ _ _ _ _ h => h) hstep (n := 0) hs hP (fun _ _ => Nat.le_refl 0)
    (List.pairwise_of_forall fun _ _ => Nat.le_refl 0) h

/-- The same of an entry anywhere in the history, for an invariant of states. -/
theorem history_mem {I : σ → Prop} {P : σ → ι → Prop}
    (hstep : ∀ s i t, I s → P s i → exec i s = .ok t → I t)
    {s : σ} {is : List ι} (hs : I s) (hP : Along exec P s is)
    {e : Entry σ ι} (h : e ∈ history exec s is) :
    I e.before ∧ P e.before e.invocation ∧ exec e.invocation e.before = .ok e.after := by
  obtain ⟨past, later, hsplit⟩ := List.append_of_mem h
  exact history_split (I := fun _ s => I s) (fun _ s i t hs hi hok => hstep s i t hs hi hok) hs hP
    hsplit

/-- A law of states that a step keeps exactly if it is careful holds of every state of a run exactly
    if all its steps were careful. `J` is what is known as long as the law held. -/
theorem history_forall_iff_while {I A J : σ → Prop} {P B : σ → ι → Prop}
    (hkeep : ∀ s i t, I s → P s i → exec i s = .ok t → I t)
    (hstep : ∀ s i t, I s → A s → J s → P s i → exec i s = .ok t → (A t ↔ B s i) ∧ (A t → J t))
    {s : σ} {is : List ι} (hs : I s) (hA : A s) (hJ : J s) (hP : Along exec P s is) :
    (∀ e ∈ history exec s is, A e.after) ↔
      ∀ e ∈ history exec s is, B e.before e.invocation := by
  induction is generalizing s with
  | nil => simp [history]
  | cons i is ih =>
    obtain ⟨hi, hrest⟩ := hP
    unfold step at hrest
    unfold history
    cases hexec : exec i s with
    | error e =>
      simp only [hexec] at hrest ⊢
      exact ih hs hA hJ hrest
    | ok t =>
      simp only [hexec] at hrest ⊢
      obtain ⟨hnow, hnext⟩ := hstep s i t hs hA hJ hi hexec
      rw [List.forall_mem_cons, List.forall_mem_cons, hnow]
      refine and_congr_right fun hcareful => ?_
      have hA' := hnow.mpr hcareful
      exact ih (hkeep s i t hs hi hexec) hA' (hnext hA') hrest

theorem history_forall_iff {I A : σ → Prop} {P B : σ → ι → Prop}
    (hkeep : ∀ s i t, I s → P s i → exec i s = .ok t → I t)
    (hstep : ∀ s i t, I s → A s → P s i → exec i s = .ok t → (A t ↔ B s i))
    {s : σ} {is : List ι} (hs : I s) (hA : A s) (hP : Along exec P s is) :
    (∀ e ∈ history exec s is, A e.after) ↔
      ∀ e ∈ history exec s is, B e.before e.invocation :=
  history_forall_iff_while (J := fun _ => True) hkeep
    (fun s i t hs hA _ hi hok => ⟨hstep s i t hs hA hi hok, fun _ => trivial⟩) hs hA trivial hP

/-- One invocation, the state it was made in, and how it ended. -/
structure Attempt (σ ι ε : Type) where
  before : σ
  invocation : ι
  outcome : Except ε σ

/-- All invocations of a run, with those that failed. -/
def attempts (exec : ι → σ → Except ε σ) : σ → List ι → List (Attempt σ ι ε)
  | _, [] => []
  | s, i :: is => ⟨s, i, exec i s⟩ :: attempts exec (step exec s i) is

theorem attempts_mem {I : σ → Prop} (hstep : ∀ s i t, I s → exec i s = .ok t → I t)
    {s : σ} {is : List ι} (hs : I s) {a : Attempt σ ι ε} (h : a ∈ attempts exec s is) :
    I a.before ∧ a.outcome = exec a.invocation a.before := by
  induction is generalizing s with
  | nil => cases h
  | cons i is ih =>
    rcases List.mem_cons.mp h with rfl | h
    · exact ⟨hs, rfl⟩
    · exact ih (step_preserves (fun t ht => hstep s i t hs ht) hs) h

/-- A law of states and attempts, where in a state that meets the law an attempt does exactly if it
    is careful and a careful attempt keeps the law, holds throughout a run exactly if all its
    attempts were careful. -/
theorem attempts_forall_iff {I A : σ → Prop} {D : Attempt σ ι ε → Prop} {C : σ → ι → Prop}
    (hkeep : ∀ s i t, I s → exec i s = .ok t → I t)
    (hlaw : ∀ s i, I s → A s → (D ⟨s, i, exec i s⟩ ↔ C s i))
    (hstep : ∀ s i t, I s → A s → C s i → exec i s = .ok t → A t)
    {s : σ} {is : List ι} (hs : I s) (hA : A s) :
    ((∀ js, js <+: is → A (run exec s js)) ∧ ∀ x ∈ attempts exec s is, D x) ↔
      ∀ x ∈ attempts exec s is, C x.before x.invocation := by
  induction is generalizing s with
  | nil => simp [attempts, hA]
  | cons i is ih =>
    have hnow := hlaw s i hs hA
    have hI : I (step exec s i) := step_preserves (fun t ht => hkeep s i t hs ht) hs
    rw [attempts, List.forall_mem_cons, List.forall_mem_cons, hnow]
    constructor
    · rintro ⟨hstates, hcareful, hrest⟩
      have hnext : A (step exec s i) := step_preserves (fun t ht => hstep s i t hs hA hcareful ht) hA
      refine ⟨hcareful, (ih hI hnext).mp ⟨fun js hjs => ?_, hrest⟩⟩
      exact hstates (i :: js) (List.cons_prefix_cons.mpr ⟨rfl, hjs⟩)
    · rintro ⟨hcareful, hrest⟩
      have hnext : A (step exec s i) := step_preserves (fun t ht => hstep s i t hs hA hcareful ht) hA
      obtain ⟨hstates, hlaws⟩ := (ih hI hnext).mpr hrest
      refine ⟨fun js hjs => ?_, hcareful, hlaws⟩
      cases js with
      | nil => exact hA
      | cons j js =>
        obtain ⟨rfl, htail⟩ := List.cons_prefix_cons.mp hjs
        exact hstates js htail

end SorobanKit.HostRuns
