import SorobanKit.HostRuns

set_option autoImplicit false

/-!
# Changes on notice

A change is announced first and carried out no sooner than a delay later; a new announcement takes
the place of the old one. What the state keeps is the announcement that waits, with the time from
which it may be carried out. `Notice.Kept` says what single calls do to it; of whole runs it follows
that every change was announced long enough before, and that for the length of the delay nothing
changes that was not announced already.
-/
namespace SorobanKit.HostNotice
open HostRuns

variable {σ ι ε β : Type}

structure Notice (σ ι β : Type) where
  pending : σ → Option (β × ℕ)
  announced : Entry σ ι → Option β
  carried : Entry σ ι → Option β
  time : ι → ℕ
  delay : ℕ

variable (N : Notice σ ι β)

/-- The call has nothing to do with changes. -/
def Notice.Apart (e : Entry σ ι) : Prop := N.announced e = none ∧ N.carried e = none

structure Notice.Kept (exec : ι → σ → Except ε σ) : Prop where
  announce : ∀ s i t v, exec i s = .ok t → N.announced ⟨s, i, t⟩ = some v →
    N.pending t = some (v, N.time i + N.delay)
  carry : ∀ s i t v, exec i s = .ok t → N.carried ⟨s, i, t⟩ = some v →
    N.pending t = none ∧ ∃ ready, N.pending s = some (v, ready) ∧ ready ≤ N.time i
  apart : ∀ s i t, exec i s = .ok t → N.Apart ⟨s, i, t⟩ → N.pending t = N.pending s

/-- The announcement of `v` in a history, and nothing about changes since. -/
structure Notice.Standing (past : List (Entry σ ι)) (v : β) (ready : ℕ) (before : List (Entry σ ι))
    (e : Entry σ ι) (between : List (Entry σ ι)) : Prop where
  split : past = before ++ e :: between
  value : N.announced e = some v
  ready_eq : ready = N.time e.invocation + N.delay
  since : ∀ x ∈ between, N.Apart x

/-- Whatever waits was announced. -/
def Notice.Known (past : List (Entry σ ι)) (s : σ) : Prop :=
  ∀ v ready, N.pending s = some (v, ready) → ∃ before e between,
    N.Standing past v ready before e between

section Runs
variable {N} {exec : ι → σ → Except ε σ} {s t : σ} {i : ι} {past : List (Entry σ ι)}

theorem Notice.Known.step (hN : N.Kept exec) (hs : N.Known past s) (h : exec i s = .ok t) :
    N.Known (past ++ [⟨s, i, t⟩]) t := by
  intro v ready hpending
  cases hannounced : N.announced ⟨s, i, t⟩ with
  | some w =>
    rw [hN.announce s i t w h hannounced] at hpending
    cases hpending
    exact ⟨past, ⟨s, i, t⟩, [], rfl, hannounced, rfl, fun x hx => absurd hx (List.not_mem_nil)⟩
  | none =>
    cases hcarried : N.carried ⟨s, i, t⟩ with
    | some w =>
      rw [(hN.carry s i t w h hcarried).1] at hpending
      cases hpending
    | none =>
      rw [hN.apart s i t h ⟨hannounced, hcarried⟩] at hpending
      obtain ⟨before, e, between, hsplit, hvalue, hready, hsince⟩ := hs v ready hpending
      refine ⟨before, e, between ++ [⟨s, i, t⟩], ?_, hvalue, hready, fun x hx => ?_⟩
      · rw [hsplit, List.append_assoc, List.cons_append]
      · rcases List.mem_append.mp hx with hx | hx
        · exact hsince x hx
        · rw [List.mem_singleton.mp hx]
          exact ⟨hannounced, hcarried⟩

/-- In a run that begins with nothing announced, every change was announced with its value, at
    least the delay before, and no other announcement or change came in between. -/
theorem carried_on_notice (hN : N.Kept exec) (hs : N.pending s = none) {is : List ι}
    {later : List (Entry σ ι)} {e : Entry σ ι} (h : history exec s is = past ++ e :: later) {v : β}
    (hcarried : N.carried e = some v) :
    ∃ before a between, past = before ++ a :: between ∧ N.announced a = some v ∧
      N.time a.invocation + N.delay ≤ N.time e.invocation ∧ ∀ x ∈ between, N.Apart x := by
  have hfirst : N.Known [] s := by
    intro w ready hpending
    rw [hs] at hpending
    cases hpending
  obtain ⟨hknown, _, hok⟩ := history_split (P := fun _ _ => True)
    (fun _ _ _ _ hpast _ h => hpast.step hN h) hfirst (along_true exec s is) h
  obtain ⟨_, ready, hpending, hready⟩ := hN.carry _ _ _ v hok hcarried
  obtain ⟨before, a, between, hsplit, hvalue, heq, hsince⟩ := hknown v ready hpending
  exact ⟨before, a, between, hsplit, hvalue, heq ▸ hready, hsince⟩

/-- For the length of the delay from `now` on nothing changes, unless an announcement that waits at
    the start is ready before. -/
theorem unchanged_within_delay (hN : N.Kept exec) {now : ℕ}
    (hs : ∀ v ready, N.pending s = some (v, ready) → now + N.delay ≤ ready) {is : List ι}
    (hnow : ∀ i ∈ is, now ≤ N.time i ∧ N.time i < now + N.delay) :
    ∀ e ∈ history exec s is, N.carried e = none := by
  intro e he
  have hstep : ∀ u j w, (∀ v ready, N.pending u = some (v, ready) → now + N.delay ≤ ready) →
      (True ∧ now ≤ N.time j ∧ N.time j < now + N.delay) → exec j u = .ok w →
      ∀ v ready, N.pending w = some (v, ready) → now + N.delay ≤ ready := by
    rintro u j w hu ⟨_, hearly, _⟩ h v ready hpending
    cases hannounced : N.announced ⟨u, j, w⟩ with
    | some x =>
      rw [hN.announce u j w x h hannounced] at hpending
      cases hpending
      exact Nat.add_le_add_right hearly _
    | none =>
      cases hcarried : N.carried ⟨u, j, w⟩ with
      | some x =>
        rw [(hN.carry u j w x h hcarried).1] at hpending
        cases hpending
      | none =>
        rw [hN.apart u j w h ⟨hannounced, hcarried⟩] at hpending
        exact hu v ready hpending
  obtain ⟨hbefore, ⟨_, _, hsoon⟩, hok⟩ := history_mem hstep hs
    ((along_true exec s is).and_forall hnow) he
  cases hcarried : N.carried e with
  | none => rfl
  | some v =>
    obtain ⟨_, ready, hpending, hready⟩ := hN.carry _ _ _ v hok hcarried
    have hlate := hbefore v ready hpending
    omega

/-- What no call of a run changes is the same at its end. -/
theorem run_unchanged {γ : Type} (f : σ → γ) {is : List ι}
    (h : ∀ e ∈ history exec s is, f e.after = f e.before) : f (HostRuns.run exec s is) = f s := by
  induction is generalizing s with
  | nil => rfl
  | cons i is ih =>
    rw [run_cons]
    unfold history at h
    unfold step
    cases hexec : exec i s with
    | error e =>
      simp only [hexec] at h ⊢
      exact ih h
    | ok t =>
      simp only [hexec, List.forall_mem_cons] at h ⊢
      exact (ih h.2).trans h.1

end Runs

end SorobanKit.HostNotice
