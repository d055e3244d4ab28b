import SorobanKit.HostRuns
import SorobanKit.HostTransfers

set_option autoImplicit false

/-!
# A contract and the token contract it calls

A contract sees token contracts through `TokenReplies`. When one of them is a contract with a
state of its own, what it replies during an invocation is what its state does to the transfers
made so far. `Joint` runs both side by side: calls on the contract, whose transfers are then
made in the token's state, interleaved with direct calls on the token by anybody.
-/
namespace SorobanKit.HostServers
open HostInvocation HostRuns HostTransfers

section Accepted
variable {π : Type}

/-- Every transfer was accepted after all the ones before it. -/
def Accepted (replies : TokenReplies π) : List (Transfer π) → List (Transfer π) → Prop
  | _, [] => True
  | past, x :: xs => replies.accepts past x ∧ Accepted replies (past ++ [x]) xs

theorem accepted_append {replies : TokenReplies π} {past xs ys : List (Transfer π)} :
    Accepted replies past (xs ++ ys) ↔
      Accepted replies past xs ∧ Accepted replies (past ++ xs) ys := by
  induction xs generalizing past with
  | nil => simp [Accepted]
  | cons x xs ih =>
    rw [List.cons_append, Accepted, Accepted, ih, List.append_assoc, and_assoc]
    rfl

/-- Only what the replies say about transfers matters. -/
theorem Accepted.congr {replies others : TokenReplies π} (hsame : others.accepts = replies.accepts)
    {past xs : List (Transfer π)} (h : Accepted replies past xs) : Accepted others past xs := by
  induction xs generalizing past with
  | nil => trivial
  | cons x xs ih =>
    obtain ⟨hx, hrest⟩ := h
    exact ⟨by rw [hsame]; exact hx, ih hrest⟩

/-- The log only grew, by transfers that were accepted. -/
def Grown (replies : TokenReplies π) (before after : List (Transfer π)) : Prop :=
  ∃ new, after = before ++ new ∧ Accepted replies before new

theorem Grown.refl (replies : TokenReplies π) (log : List (Transfer π)) : Grown replies log log :=
  ⟨[], (List.append_nil log).symm, trivial⟩

theorem Grown.of_eq {replies : TokenReplies π} {log log' : List (Transfer π)} (h : log' = log) :
    Grown replies log log' := by
  rw [h]
  exact .refl replies log

theorem Grown.one {replies : TokenReplies π} {log : List (Transfer π)} {x : Transfer π}
    (h : replies.accepts log x) : Grown replies log (log ++ [x]) := ⟨[x], rfl, h, trivial⟩

theorem Grown.trans {replies : TokenReplies π} {a b c : List (Transfer π)}
    (hab : Grown replies a b) (hbc : Grown replies b c) : Grown replies a c := by
  obtain ⟨xs, rfl, hxs⟩ := hab
  obtain ⟨ys, rfl, hys⟩ := hbc
  exact ⟨xs ++ ys, List.append_assoc a xs ys, accepted_append.mpr ⟨hxs, hys⟩⟩

theorem Grown.congr {replies others : TokenReplies π} (hsame : others.accepts = replies.accepts)
    {a b : List (Transfer π)} (h : Grown replies a b) : Grown others a b := by
  obtain ⟨new, rfl, hnew⟩ := h
  exact ⟨new, rfl, hnew.congr hsame⟩

/-- A loop whose rounds only add accepted transfers only adds accepted transfers. -/
theorem Grown.foldlM {α σ ε : Type} {replies : TokenReplies π} (log : σ → List (Transfer π))
    {f : σ → α → Result ε σ} (hround : ∀ s a t, f s a = .ok t → Grown replies (log s) (log t))
    {items : List α} {s t : σ} (h : items.foldlM f s = .ok t) : Grown replies (log s) (log t) := by
  induction items generalizing s with
  | nil =>
    rw [List.foldlM_nil, pure_eq_ok] at h
    rw [h]
    exact .refl replies (log t)
  | cons a items ih =>
    rw [List.foldlM_cons, bind_eq_ok] at h
    obtain ⟨u, hu, h⟩ := h
    exact (hround s a u hu).trans (ih h)

end Accepted

/-- A token contract as other contracts call it. -/
structure Bank (τ : Type) where
  address : Address
  transfer : Context → Address → Address → ℤ → τ → Option τ
  holds : τ → Address → ℤ

section Banks
variable {τ π : Type} (B : Bank τ) (house : Address) (ctx : Context)

/-- The house signs for the transfers it makes from its own balance. -/
def signing (x : Transfer π) : Context :=
  { ctx with auths := if x.source = house then house :: ctx.auths else ctx.auths }

def settleOne (b : τ) (x : Transfer π) : Option τ :=
  if x.token = B.address then
    B.transfer (signing house ctx x) x.source x.target x.amount b
  else some b

/-- Makes the transfers of a log, those of this token, one after the other. -/
def settle (b : τ) (log : List (Transfer π)) : Option τ := log.foldlM (settleOne B house ctx) b

/-- What the token replies during one invocation that began with `past` in the log; the other
    tokens reply as they like. -/
def bankReplies (past : List (Transfer π)) (others : TokenReplies π) (b : τ) : TokenReplies π where
  balance token holder := if token = B.address then B.holds b holder else others.balance token holder
  accepts log x :=
    if x.token = B.address then (settle B house ctx b (log.drop past.length ++ [x])).isSome
    else others.accepts log x
  responds token := if token = B.address then true else others.responds token

theorem settle_append (b : τ) (xs ys : List (Transfer π)) :
    settle B house ctx b (xs ++ ys) =
      (settle B house ctx b xs).bind fun c => settle B house ctx c ys := by
  unfold settle
  rw [List.foldlM_append]
  rfl

theorem settle_one (b : τ) (x : Transfer π) :
    settle B house ctx b [x] = settleOne B house ctx b x := by
  simp [settle]

variable {B house ctx}

theorem settle_of_accepted {past done new : List (Transfer π)} {others : TokenReplies π} {b c : τ}
    (hdone : settle B house ctx b done = some c)
    (h : Accepted (bankReplies B house ctx past others b) (past ++ done) new) :
    ∃ c', settle B house ctx b (done ++ new) = some c' := by
  induction new generalizing done c with
  | nil => exact ⟨c, by rw [List.append_nil, hdone]⟩
  | cons x new ih =>
    obtain ⟨hx, hnew⟩ := h
    have hone : ∃ c', settle B house ctx b (done ++ [x]) = some c' := by
      by_cases htoken : x.token = B.address
      · simp only [bankReplies, htoken, if_true, List.drop_left, Option.isSome_iff_exists] at hx
        exact hx
      · refine ⟨c, ?_⟩
        rw [settle_append, hdone]
        simp [settle, settleOne, htoken]
    obtain ⟨c', hc'⟩ := hone
    rw [List.append_assoc] at hnew
    obtain ⟨final, hfinal⟩ := ih hc' hnew
    exact ⟨final, by rw [← hfinal, List.append_assoc]; rfl⟩

/-- What can be settled is accepted: the token replies what it would do. -/
theorem accepted_of_settle {past done new : List (Transfer π)} {others : TokenReplies π} {b c : τ}
    (hnew : ∀ x ∈ new, x.token = B.address) (h : settle B house ctx b (done ++ new) = some c) :
    Accepted (bankReplies B house ctx past others b) (past ++ done) new := by
  induction new generalizing done with
  | nil => trivial
  | cons x new ih =>
    obtain ⟨htoken, hrest⟩ := List.forall_mem_cons.mp hnew
    rw [List.append_cons] at h
    refine ⟨?_, ?_⟩
    · rw [settle_append] at h
      obtain ⟨m, hm, _⟩ := Option.bind_eq_some_iff.mp h
      simp only [bankReplies, htoken, if_true, List.drop_left, hm, Option.isSome_some]
    · rw [List.append_assoc]
      exact ih hrest h

/-- An exact token: what a transfer moves is its amount, whoever looks. -/
def Bank.Exact (B : Bank τ) : Prop :=
  ∀ ctx source target amount b c, B.transfer ctx source target amount b = some c →
    ∀ holder, B.holds c holder = B.holds b holder
      + (if target = holder then amount else 0) - (if source = holder then amount else 0)

/-- Settling a log changes a balance by what the log gains its holder. -/
theorem settle_holds (hexact : B.Exact) {log : List (Transfer π)} {b c : τ}
    (h : settle B house ctx b log = some c) (holder : Address) :
    B.holds c holder = B.holds b holder + gain B.address holder log := by
  induction log generalizing b with
  | nil =>
    obtain rfl : b = c := Option.some.inj h
    rw [gain_nil, add_zero]
  | cons x log ih =>
    change (settleOne B house ctx b x).bind (fun b => settle B house ctx b log) = some c at h
    obtain ⟨m, hm, h⟩ := Option.bind_eq_some_iff.mp h
    rw [ih h, gain_cons]
    unfold settleOne at hm
    split at hm
    · next htoken =>
      rw [hexact _ _ _ _ _ _ hm holder]
      simp only [gain, received, sent, sumOf_cons, sumOf_nil, htoken, true_and, decide_eq_true_eq,
        add_zero]
      omega
    · next htoken =>
      obtain rfl := Option.some.inj hm
      rw [gain_other_token htoken]
      omega

/-- What every transfer of the token keeps, settling a log keeps. -/
theorem settle_keeps {I : τ → Prop}
    (hkeep : ∀ (x : Transfer π) b c, I b →
      B.transfer (signing house ctx x) x.source x.target x.amount b = some c → I c)
    {log : List (Transfer π)} {b c : τ} (hb : I b) (h : settle B house ctx b log = some c) : I c := by
  induction log generalizing b with
  | nil =>
    obtain rfl : b = c := Option.some.inj h
    exact hb
  | cons x log ih =>
    change (settleOne B house ctx b x).bind (fun b => settle B house ctx b log) = some c at h
    obtain ⟨m, hm, h⟩ := Option.bind_eq_some_iff.mp h
    refine ih ?_ h
    unfold settleOne at hm
    split at hm
    · exact hkeep x b m hb hm
    · obtain rfl := Option.some.inj hm
      exact hb

end Banks

/-- A contract that moves tokens. `answered` is the invocation with the replies it really gets. -/
structure Client (π σ ι ε : Type) where
  house : Address
  exec : ι → σ → Except ε σ
  log : σ → List (Transfer π)
  context : ι → Context
  replies : ι → TokenReplies π
  answered : TokenReplies π → ι → ι

/-- A call of somebody on one of the two. -/
inductive JointCall (ι κ : Type) where
  | client (i : ι)
  | bank (j : κ)

section Joint
variable {π σ ι ε τ κ η : Type} (C : Client π σ ι ε) (B : Bank τ) (direct : κ → τ → Except η τ)

/-- The replies an invocation of the client gets in a state of the token. -/
def answers (i : ι) (s : σ) (b : τ) : ι :=
  C.answered (bankReplies B C.house (C.context i) (C.log s) (C.replies i) b) i

/-- A call of the client takes the transfers it made to the token's state. -/
def jointExec : JointCall ι κ → σ × τ → Except Unit (σ × τ)
  | .client i, (s, b) =>
    match C.exec (answers C B i s b) s with
    | .ok t =>
      match settle B C.house (C.context i) b ((C.log t).drop (C.log s).length) with
      | some c => .ok (t, c)
      | none => .error ()
    | .error _ => .error ()
  | .bank j, (s, b) =>
    match direct j b with
    | .ok c => .ok (s, c)
    | .error _ => .error ()

/-- The client only logs transfers its replies accepted, in the calls that meet `Q`. -/
def Client.Lawful (C : Client π σ ι ε) (Q : σ → ι → Prop) : Prop :=
  ∀ replies i s t, Q s (C.answered replies i) → C.exec (C.answered replies i) s = .ok t →
    Grown replies (C.log s) (C.log t)

variable {C B direct} {Q : σ → ι → Prop}

/-- A call of the client fails exactly when the client itself does: the token never refuses
    afterwards what it accepted. -/
theorem jointExec_client_ok_iff (hC : C.Lawful Q) {i : ι} {s t : σ} {b : τ}
    (hi : Q s (answers C B i s b)) :
    (∃ c, jointExec C B direct (.client i) (s, b) = .ok (t, c)) ↔
      C.exec (answers C B i s b) s = .ok t := by
  constructor
  · rintro ⟨c, h⟩
    simp only [jointExec] at h
    split at h
    · next u hu =>
      split at h
      · cases h
        exact hu
      · cases h
    · cases h
  · intro h
    obtain ⟨new, hlog, hnew⟩ := hC _ _ _ _ hi h
    have hfirst : Accepted (bankReplies B C.house (C.context i) (C.log s) (C.replies i) b)
        (C.log s ++ []) new := by
      rw [List.append_nil]
      exact hnew
    obtain ⟨c, hc⟩ := settle_of_accepted rfl hfirst
    refine ⟨c, ?_⟩
    rw [List.nil_append] at hc
    simp only [jointExec, h, hlog, List.drop_left, hc]

/-- What a call of the client did to both. -/
theorem jointExec_client (hC : C.Lawful Q) {i : ι} {s : σ} {b : τ} {y : σ × τ}
    (hi : Q s (answers C B i s b)) (h : jointExec C B direct (.client i) (s, b) = .ok y) :
    C.exec (answers C B i s b) s = .ok y.1 ∧
      ∃ new, C.log y.1 = C.log s ++ new ∧ settle B C.house (C.context i) b new = some y.2 := by
  obtain ⟨t, c⟩ := y
  have hexec := (jointExec_client_ok_iff hC hi).mp ⟨c, h⟩
  obtain ⟨new, hlog, _⟩ := hC _ _ _ _ hi hexec
  refine ⟨hexec, new, hlog, ?_⟩
  simp only [jointExec, hexec, hlog, List.drop_left] at h
  split at h
  · next c' hc =>
    cases h
    exact hc
  · cases h

theorem jointExec_bank {j : κ} {s : σ} {b : τ} {y : σ × τ}
    (h : jointExec C B direct (.bank j) (s, b) = .ok y) : y.1 = s ∧ direct j b = .ok y.2 := by
  simp only [jointExec] at h
  split at h
  · next c hc =>
    cases h
    exact ⟨rfl, hc⟩
  · cases h

/-- The rule for what the house holds: along calls in which nobody but the house takes from it,
    it holds at least what it began with and what its log of transfers gained it. -/
theorem joint_holds {P : σ × τ → JointCall ι κ → Prop} {I : τ → Prop} (hC : C.Lawful Q)
    (hexact : B.Exact) (hlawful : ∀ y i, P y (.client i) → Q y.1 (answers C B i y.1 y.2))
    (hclient : ∀ y i, P y (.client i) → ∀ (x : Transfer π) b c, I b →
      B.transfer (signing C.house (C.context i) x) x.source x.target x.amount b = some c → I c)
    (hbank : ∀ s b j c, P (s, b) (.bank j) → I b → direct j b = .ok c →
      I c ∧ B.holds b C.house ≤ B.holds c C.house)
    {x : σ × τ} {js : List (JointCall ι κ)} (hstart : I x.2)
    (hP : Along (jointExec C B direct) P x js) :
    I (run (jointExec C B direct) x js).2 ∧
      B.holds x.2 C.house + gain B.address C.house (C.log (run (jointExec C B direct) x js).1) ≤
        B.holds (run (jointExec C B direct) x js).2 C.house +
          gain B.address C.house (C.log x.1) := by
  refine run_invariant_along (I := fun y => I y.2 ∧
    B.holds x.2 C.house + gain B.address C.house (C.log y.1) ≤
      B.holds y.2 C.house + gain B.address C.house (C.log x.1)) ?_ ⟨hstart, le_rfl⟩ hP
  rintro ⟨s, b⟩ j ⟨t, c⟩ ⟨hI, hholds⟩ hPj hok
  dsimp only at hI hholds ⊢
  cases j with
  | client i =>
    obtain ⟨_, new, hlog, hsettle⟩ := jointExec_client hC (hlawful (s, b) i hPj) hok
    dsimp only at hlog hsettle
    refine ⟨settle_keeps (hclient (s, b) i hPj) hI hsettle, ?_⟩
    have hnew := settle_holds hexact hsettle C.house
    rw [hlog, gain_append]
    omega
  | bank j =>
    obtain ⟨hsame, hdirect⟩ := jointExec_bank hok
    dsimp only at hsame hdirect
    obtain ⟨hI', hmore⟩ := hbank s b j c hPj hI hdirect
    rw [hsame]
    exact ⟨hI', by omega⟩

end Joint

end SorobanKit.HostServers
