import SorobanKit.MultisigContract

set_option autoImplicit false

/-!
# What a call does to the wallet

One lemma for each check of the wallet, and `Move`: everything a returning call can do to
the storage, with the guards it passed. The invariants of whole runs are read off it.
-/
namespace SorobanKit.Multisig
open HostInteger HostInvocation

theorem seenLoop_ok {l seen r : List Address} :
    l.foldlM (fun seen signer => do
      rejectIf (signer ∈ seen) MultisigError.invalidSigners
      return seen ++ [signer]) seen = .ok r ↔
      r = seen ++ l ∧ l.Nodup ∧ ∀ x ∈ l, x ∉ seen := by
  induction l generalizing seen with
  | nil =>
    simp only [List.foldlM_nil, pure_eq_ok, List.append_nil, List.nodup_nil, List.not_mem_nil,
      false_implies, implies_true, and_true]
    exact eq_comm
  | cons x l ih =>
    simp only [List.foldlM_cons, bind_eq_ok, rejectIf_eq_ok, pure_eq_ok, List.nodup_cons,
      List.mem_cons, forall_eq_or_imp]
    constructor
    · rintro ⟨_, ⟨_, hx, rfl⟩, h⟩
      obtain ⟨rfl, hnodup, hnew⟩ := ih.mp h
      refine ⟨by simp, ⟨fun hmem => ?_, hnodup⟩, hx, fun y hy => ?_⟩
      · exact hnew x hmem (by simp)
      · exact fun hseen => hnew y hy (by simp [hseen])
    · rintro ⟨rfl, ⟨hnot, hnodup⟩, hx, hnew⟩
      refine ⟨seen ++ [x], ⟨(), hx, rfl⟩, ih.mpr ⟨by simp, hnodup, fun y hy hmem => ?_⟩⟩
      rcases List.mem_append.mp hmem with hmem | hmem
      · exact hnew y hy hmem
      · rw [List.mem_singleton.mp hmem] at hy
        exact hnot hy

@[simp] theorem validateUniqueSigners_eq_ok {signers : List Address} {u : Unit} :
    validateUniqueSigners signers = .ok u ↔ signers ≠ [] ∧ signers.Nodup := by
  simp only [validateUniqueSigners, bind_eq_ok, rejectIf_eq_ok, List.isEmpty_iff, pure_eq_ok,
    seenLoop_ok]
  constructor
  · rintro ⟨_, hne, _, ⟨_, hnodup, _⟩, _⟩
    exact ⟨hne, hnodup⟩
  · rintro ⟨hne, hnodup⟩
    exact ⟨(), hne, signers, ⟨by simp, hnodup, by simp⟩, trivial⟩

@[simp] theorem validateThreshold_eq_ok {threshold total : ℕ} {u : Unit} :
    validateThreshold threshold total = .ok u ↔ 1 ≤ threshold ∧ threshold ≤ total := by
  simp only [validateThreshold, rejectIf_eq_ok]
  omega

theorem totalWeight_eq (signers : List Address) (weights : Weights) :
    totalWeight signers weights = min ((signers.map (getWeight weights)).sum) u32Max := by
  unfold totalWeight
  rw [foldl_saturatingAddU32 _ _ (Nat.zero_le _), Nat.zero_add]

/-- The approvals of a call: distinct current signers that authorized it, whose weight
    reaches the threshold. -/
structure Approved (ctx : Context) (approvals : List Address) (s : State) : Prop where
  nonempty : approvals ≠ []
  distinct : approvals.Nodup
  members : ∃ signers, s.signers = some signers ∧ ∀ a ∈ approvals, a ∈ signers
  authorized : ∀ a ∈ approvals, a ∈ ctx.auths
  weight : ∃ threshold, s.threshold = some threshold ∧
    threshold ≤ min ((approvals.map (signerWeightInternal s)).sum) u32Max

theorem approvalLoop_ok {ctx : Context} {signers approvals : List Address} {s : State}
    {start total : ℕ} :
    approvals.foldlM (fun accumulated approver => do
      rejectIf (approver ∉ signers) MultisigError.notSigner
      requireAuth ctx approver
      return saturatingAddU32 accumulated (signerWeightInternal s approver)) start = .ok total ↔
      (∀ a ∈ approvals, a ∈ signers ∧ a ∈ ctx.auths) ∧
        total = approvals.foldl
          (fun acc a => saturatingAddU32 acc (signerWeightInternal s a)) start := by
  induction approvals generalizing start with
  | nil =>
    simp only [List.foldlM_nil, pure_eq_ok, List.not_mem_nil, false_implies, implies_true,
      true_and, List.foldl_nil]
    exact eq_comm
  | cons a approvals ih =>
    simp only [List.foldlM_cons, bind_eq_ok, rejectIf_eq_ok, requireAuth_eq_ok, pure_eq_ok, not_not,
      List.mem_cons, forall_eq_or_imp, List.foldl_cons]
    constructor
    · rintro ⟨_, ⟨_, ha, _, hauth, rfl⟩, h⟩
      obtain ⟨hall, rfl⟩ := ih.mp h
      exact ⟨⟨⟨ha, hauth⟩, hall⟩, rfl⟩
    · rintro ⟨⟨⟨ha, hauth⟩, hall⟩, rfl⟩
      exact ⟨_, ⟨(), ha, (), hauth, rfl⟩, ih.mpr ⟨hall, rfl⟩⟩

@[simp] theorem requireThresholdApprovals_eq_ok {ctx : Context} {approvals : List Address}
    {s : State} {u : Unit} :
    requireThresholdApprovals ctx approvals s = .ok u ↔ Approved ctx approvals s := by
  simp only [requireThresholdApprovals, bind_eq_ok, validateUniqueSigners_eq_ok, getRequiredSigners,
    okOr_eq_ok, approvalLoop_ok, rejectIf_eq_ok, not_lt]
  constructor
  · rintro ⟨_, ⟨hne, hnodup⟩, signers, hsigners, threshold, hthreshold, _, ⟨hall, rfl⟩, hle⟩
    rw [foldl_saturatingAddU32 _ _ (Nat.zero_le _), Nat.zero_add] at hle
    exact ⟨hne, hnodup, ⟨signers, hsigners, fun a ha => (hall a ha).1⟩, fun a ha => (hall a ha).2,
      threshold, hthreshold, hle⟩
  · rintro ⟨hne, hnodup, ⟨signers, hsigners, hmem⟩, hauth, threshold, hthreshold, hle⟩
    refine ⟨(), ⟨hne, hnodup⟩, signers, hsigners, threshold, hthreshold, _,
      ⟨fun a ha => ⟨hmem a ha, hauth a ha⟩, rfl⟩, ?_⟩
    rw [foldl_saturatingAddU32 _ _ (Nat.zero_le _), Nat.zero_add]
    exact hle

/-- The age of a proposal that passed `requireFresh`. -/
def Fresh (ctx : Context) (transaction : Transaction) (s : State) : Prop :=
  ∀ maxValid, s.maxProposalValidityLedgers = some maxValid →
    ctx.sequence - transaction.createdLedger ≤ maxValid

@[simp] theorem requireFresh_eq_ok {ctx : Context} {transaction : Transaction} {s : State}
    {u : Unit} : requireFresh ctx transaction s = .ok u ↔ Fresh ctx transaction s := by
  unfold requireFresh Fresh
  cases s.maxProposalValidityLedgers with
  | none => simp
  | some maxValid =>
    simp only [Option.some.injEq, forall_eq']
    rw [rejectIf_eq_ok, not_lt]
    rfl

/-- Every recorded weight is a positive `u32`. -/
def ProperWeights (weights : Weights) : Prop :=
  ∀ a w, weights a = some w → 1 ≤ w ∧ w ≤ u32Max

theorem ProperWeights.update {weights : Weights} (h : ProperWeights weights) (signer : Address)
    {w : ℕ} (hw : 1 ≤ w ∧ w ≤ u32Max) : ProperWeights (Function.update weights signer (some w)) := by
  intro a v hv
  by_cases ha : a = signer
  · subst ha
    rw [Function.update_self] at hv
    cases hv
    exact hw
  · rw [Function.update_of_ne ha] at hv
    exact h a v hv

theorem properWeights_one : 1 ≤ 1 ∧ 1 ≤ u32Max := by decide

theorem ProperWeights.foldl {f : Weights → Address → Weights} {signers : List Address}
    (hf : ∀ map s, f map s = map ∨ f map s = Function.update map s (some 1)) {weights : Weights}
    (h : ProperWeights weights) : ProperWeights (signers.foldl f weights) := by
  induction signers generalizing weights with
  | nil => exact h
  | cons a signers ih =>
    apply ih
    rcases hf weights a with heq | heq
    · rw [heq]
      exact h
    · rw [heq]
      exact h.update a properWeights_one

theorem listedWeights_proper {w : List SignerWeight} {weights weights' : Weights}
    (h : w.foldlM (fun (map : Weights) sw => do
      rejectIf (sw.weight = 0) MultisigError.invalidWeight
      return Function.update map sw.signer (some sw.weight)) weights = .ok weights')
    (hproper : ProperWeights weights) : ProperWeights weights' := by
  induction w generalizing weights with
  | nil =>
    simp only [List.foldlM_nil, pure_eq_ok] at h
    rwa [← h]
  | cons sw w ih =>
    simp only [List.foldlM_cons, bind_eq_ok, rejectIf_eq_ok, pure_eq_ok] at h
    obtain ⟨_, ⟨_, hpos, rfl⟩, h⟩ := h
    exact ih h (hproper.update sw.signer ⟨by omega, sw.weight_le⟩)

theorem buildWeightsMap_proper {signers : List Address} {weights : Option (List SignerWeight)}
    {map : Weights} (h : buildWeightsMap signers weights = .ok map) : ProperWeights map := by
  have hempty : ProperWeights (fun _ => none) := by
    intro a w hw
    cases hw
  unfold buildWeightsMap at h
  cases weights with
  | none =>
    simp only [pure_eq_ok] at h
    rw [← h]
    exact hempty.foldl fun map s => .inr rfl
  | some w =>
    simp only [bind_eq_ok, pure_eq_ok] at h
    obtain ⟨listed, hlisted, rfl⟩ := h
    refine (listedWeights_proper hlisted hempty).foldl fun map s => ?_
    split
    · exact .inr rfl
    · exact .inl rfl

/-- The guards of `execute_phase`, and the call it makes. -/
structure Executable (env : Env) (s : State) (call : Dispatch) (tx : Transaction) : Prop where
  stored : s.transaction call.txId = some tx
  pending : tx.executed = false
  alive : env.sequence ≤ tx.expiryLedger
  fresh : Fresh env.toContext tx s
  reached : ∃ threshold, s.threshold = some threshold ∧ threshold ≤ tx.accumulatedWeight
  call_eq : call = ⟨call.txId, tx.target, tx.function, tx.args⟩

def Transaction.done (tx : Transaction) : Transaction := { tx with executed := true }

def markExecuted (transaction : ℕ → Option Transaction) (ids : List ℕ) : ℕ → Option Transaction :=
  fun id => if id ∈ ids then (transaction id).map Transaction.done else transaction id

/-- The proposals behind `calls` are executed, each once. -/
structure Executes (env : Env) (calls : List Dispatch) (s t : State) : Prop where
  distinct : (calls.map Dispatch.txId).Nodup
  executable : ∀ call ∈ calls, ∃ tx, Executable env s call tx
  effect : t = { s with
    transaction := markExecuted s.transaction (calls.map Dispatch.txId),
    dispatched := s.dispatched ++ calls }

/-- Aliases of an entry point are of one kind. -/
inductive Kind where
  | configuration
  | membership
  | proposal
  | signature
  | execution
  | cleanup
  | limit
  deriving DecidableEq, Repr

def Call.kind : Call → Kind
  | .initializeWallet .. | .initializeWithConfig .. | .initializeWithValidity ..
  | .initializeLegacy .. | .initializeSimple .. => .configuration
  | .addSigner .. | .removeSigner .. => .membership
  | .proposeTransaction .. => .proposal
  | .signTransaction .. => .signature
  | .executeTransaction _ | .executeProposal _ | .executeProposalU32 _ | .executeBatch _
  | .executeProposalsBatch _ | .executeProposalsBatchU32 _ => .execution
  | .cleanupExpired _ => .cleanup
  | .configureTokenLimit .. | .setTokenSpendingLimit .. | .checkSpendingLimit .. => .limit

inductive Move (i : Invocation) (s t : State) : Prop where
  | configured (signers : List Address) (weights : Weights) (threshold : ℕ)
      (maxProposalValidityLedgers : Option ℕ) (hkind : i.call.kind = .configuration)
      (hnone : s.signers = none) (hne : signers ≠ []) (hnodup : signers.Nodup)
      (hproper : ProperWeights weights) (hpos : 1 ≤ threshold)
      (hle : threshold ≤ totalWeight signers weights)
      (h : t = { s with
        signers := some signers, weights := some weights, threshold := some threshold,
        nextTransactionId := some 0, version := some 1,
        maxProposalValidityLedgers := maxProposalValidityLedgers })
  | joined (approvals : List Address) (signer : Address) (newThreshold : ℕ)
      (signers : List Address) (hcall : i.call = .addSigner approvals signer newThreshold)
      (happroved : Approved i.toContext approvals s) (hsigners : s.signers = some signers)
      (hnew : signer ∉ signers) (hpos : 1 ≤ newThreshold)
      (hle : newThreshold ≤ totalWeight (signers ++ [signer])
        (Function.update (s.weights.getD fun _ => none) signer (some 1)))
      (h : t = { s with
        signers := some (signers ++ [signer]),
        weights := some (Function.update (s.weights.getD fun _ => none) signer (some 1)),
        threshold := some newThreshold })
  | left (approvals : List Address) (signer : Address) (newThreshold : ℕ)
      (signers : List Address) (hcall : i.call = .removeSigner approvals signer newThreshold)
      (happroved : Approved i.toContext approvals s) (hsigners : s.signers = some signers)
      (hold : signer ∈ signers) (hne : signers.filter (fun existing => existing ≠ signer) ≠ [])
      (hnodup : (signers.filter (fun existing => existing ≠ signer)).Nodup)
      (hpos : 1 ≤ newThreshold)
      (hle : newThreshold ≤ totalWeight (signers.filter (fun existing => existing ≠ signer))
        (Function.update (s.weights.getD fun _ => none) signer none))
      (h : t = { s with
        signers := some (signers.filter (fun existing => existing ≠ signer)),
        weights := some (Function.update (s.weights.getD fun _ => none) signer none),
        threshold := some newThreshold })
  | proposed (proposer target : Address) (function : String) (args : List Val) (expiryLedgers : ℕ)
      (signers : List Address) (txId : ℕ)
      (hcall : i.call = .proposeTransaction proposer target function args expiryLedgers)
      (hsigners : s.signers = some signers) (hmem : proposer ∈ signers)
      (hauth : proposer ∈ i.auths) (hid : s.nextTransactionId = some txId)
      (h : t = { s with
        transaction := Function.update s.transaction txId (some
          { id := txId, proposer, target, function, args, signatures := [proposer],
            accumulatedWeight := signerWeightInternal s proposer, executed := false,
            expiryLedger := saturatingAddU32 i.sequence expiryLedgers,
            createdLedger := i.sequence, nonce := txId }),
        nextTransactionId := some (txId + 1) })
  | signed (signer : Address) (txId : ℕ) (signers : List Address) (tx : Transaction)
      (hcall : i.call = .signTransaction signer txId) (hsigners : s.signers = some signers)
      (hmem : signer ∈ signers) (hauth : signer ∈ i.auths) (htx : s.transaction txId = some tx)
      (hopen : tx.executed = false) (hexpiry : i.sequence ≤ tx.expiryLedger)
      (hfresh : Fresh i.toContext tx s) (hnew : signer ∉ tx.signatures)
      (h : t = { s with
        transaction := Function.update s.transaction txId (some { tx with
          signatures := tx.signatures ++ [signer],
          accumulatedWeight :=
            saturatingAddU32 tx.accumulatedWeight (signerWeightInternal s signer) }) })
  | executed (calls : List Dispatch) (hkind : i.call.kind = .execution)
      (h : Executes i.toEnv calls s t)
  | cleaned (txId : ℕ) (tx : Transaction) (hcall : i.call = .cleanupExpired txId)
      (htx : s.transaction txId = some tx) (hopen : tx.executed = false)
      (h : t = { s with transaction := Function.update s.transaction txId none })
  | limited (hkind : i.call.kind = .limit) (h : t = { s with spendingLimits := t.spendingLimits })

theorem initializeInternal_move {i : Invocation} {signers : List Address} {threshold : ℕ}
    {weights : Option (List SignerWeight)} {maxProposalValidityLedgers : Option ℕ} {s t : State}
    (hkind : i.call.kind = .configuration)
    (h : initializeInternal i.toContext signers threshold weights maxProposalValidityLedgers s =
      .ok t) : Move i s t := by
  simp only [initializeInternal, bind_eq_ok, rejectIf_eq_ok, validateUniqueSigners_eq_ok,
    validateThreshold_eq_ok] at h
  obtain ⟨_, hnone, _, ⟨hne, hnodup⟩, map, hmap, _, ⟨hpos, hle⟩, _, _, h⟩ := h
  have hnone : s.signers = none := by simpa using hnone
  have hproper := buildWeightsMap_proper hmap
  cases maxProposalValidityLedgers with
  | none =>
    simp only [pure_eq_ok] at h
    exact .configured signers map threshold s.maxProposalValidityLedgers hkind hnone hne hnodup
      hproper hpos hle h.symm
  | some maxVal =>
    simp only [pure_eq_ok] at h
    exact .configured signers map threshold (some maxVal) hkind hnone hne hnodup hproper hpos hle
      h.symm

theorem map_snd_eq_ok {ε α β : Type} {x : Result ε (α × β)} {b : β} :
    Prod.snd <$> x = .ok b ↔ ∃ a, x = .ok (a, b) := by
  cases x with
  | error e => simp [Functor.map, Except.map]
  | ok p => cases p; simp [Functor.map, Except.map]

theorem markExecuted_open {transaction : ℕ → Option Transaction} {ids : List ℕ} {id : ℕ}
    {tx : Transaction} (h : markExecuted transaction ids id = some tx) (hopen : tx.executed = false) :
    transaction id = some tx := by
  unfold markExecuted at h
  split at h
  · obtain ⟨old, _, rfl⟩ := Option.map_eq_some_iff.mp h
    cases hopen
  · exact h

theorem executePhase_executable {env : Env} {txId : ℕ} {s t : State} {v : Val}
    (h : executePhase env txId s = .ok (v, t)) :
    ∃ call tx, call.txId = txId ∧ Executable env s call tx ∧
      t = { s with
        transaction := Function.update s.transaction txId (some tx.done),
        dispatched := s.dispatched ++ [call] } := by
  simp only [executePhase, bind_eq_ok, getRequiredTransaction, okOr_eq_ok, rejectIf_eq_ok,
    requireFresh_eq_ok, unwrap_eq_ok, pure_eq_ok, not_lt, Prod.mk.injEq] at h
  obtain ⟨tx, htx, _, hopen, _, hexpiry, _, hfresh, threshold, hthreshold, _, hle, _, _, _, rfl⟩ := h
  exact ⟨⟨txId, tx.target, tx.function, tx.args⟩, tx, rfl,
    ⟨htx, by simpa using hopen, hexpiry, hfresh, ⟨threshold, hthreshold, hle⟩, rfl⟩, rfl⟩

theorem executes_nil (env : Env) (s : State) : Executes env [] s s := by
  refine ⟨List.nodup_nil, by simp, ?_⟩
  rw [List.append_nil]
  rfl

theorem markExecuted_concat {transaction : ℕ → Option Transaction} {ids : List ℕ} {txId : ℕ}
    {tx : Transaction} (htx : transaction txId = some tx) :
    Function.update (markExecuted transaction ids) txId (some tx.done) =
      markExecuted transaction (ids ++ [txId]) := by
  funext id
  unfold markExecuted
  by_cases hid : id = txId
  · subst hid
    rw [Function.update_self, if_pos (by simp), htx]
    rfl
  · rw [Function.update_of_ne hid]
    simp only [List.mem_append, List.mem_singleton, hid, or_false]

/-- One more execution: it finds a proposal that was open from the start. -/
theorem Executes.snoc {env : Env} {calls : List Dispatch} {s u t : State} {txId : ℕ} {v : Val}
    (h : Executes env calls s u) (hone : executePhase env txId u = .ok (v, t)) :
    ∃ call, Executes env (calls ++ [call]) s t := by
  obtain ⟨call, tx, rfl, hcall, rfl⟩ := executePhase_executable hone
  obtain ⟨hnodup, hall, rfl⟩ := h
  have hstored : markExecuted s.transaction (calls.map Dispatch.txId) call.txId = some tx :=
    hcall.stored
  have hnew : call.txId ∉ calls.map Dispatch.txId := by
    intro hmem
    rw [markExecuted, if_pos hmem] at hstored
    obtain ⟨old, _, rfl⟩ := Option.map_eq_some_iff.mp hstored
    cases hcall.pending
  rw [markExecuted, if_neg hnew] at hstored
  refine ⟨call, ?_, ?_, ?_⟩
  · rw [List.map_append, List.map_singleton, ← List.concat_eq_append]
    exact hnodup.concat hnew
  · intro other hother
    rcases List.mem_append.mp hother with hother | hother
    · exact hall other hother
    · rw [List.mem_singleton.mp hother]
      exact ⟨tx, { hcall with stored := hstored }⟩
  · simp only [List.map_append, List.map_singleton, List.append_assoc]
    rw [markExecuted_concat hstored]

theorem executeBatch_executes {env : Env} {ids done done' : List ℕ} {calls : List Dispatch}
    {s u t : State} (hdone : Executes env calls s u)
    (h : ids.foldlM (batchStep env) (done, u) = .ok (done', t)) :
    ∃ calls, Executes env calls s t := by
  induction ids generalizing done calls u with
  | nil =>
    simp only [List.foldlM_nil, pure_eq_ok, Prod.mk.injEq] at h
    rw [← h.2]
    exact ⟨calls, hdone⟩
  | cons txId ids ih =>
    simp only [List.foldlM_cons, bind_eq_ok] at h
    obtain ⟨⟨done₁, u₁⟩, hone, h⟩ := h
    unfold batchStep at hone
    split at hone
    · next v u' hexec =>
      cases hone
      obtain ⟨call, hmore⟩ := hdone.snoc hexec
      exact ih hmore h
    · cases hone
      exact ih hdone h
    · cases hone

theorem addSigner_move {i : Invocation} {approvals : List Address} {signer : Address}
    {newThreshold : ℕ} {s t : State} (hcall : i.call = .addSigner approvals signer newThreshold)
    (h : addSigner i.toContext approvals signer newThreshold s = .ok t) : Move i s t := by
  simp only [addSigner, bind_eq_ok, getRequiredSigners, okOr_eq_ok, requireThresholdApprovals_eq_ok,
    rejectIf_eq_ok, validateThreshold_eq_ok, pure_eq_ok] at h
  obtain ⟨signers, hsigners, _, happroved, _, hnew, _, ⟨hpos, hle⟩, rfl⟩ := h
  exact .joined approvals signer newThreshold signers hcall happroved hsigners hnew hpos hle rfl

theorem removeSigner_move {i : Invocation} {approvals : List Address} {signer : Address}
    {newThreshold : ℕ} {s t : State} (hcall : i.call = .removeSigner approvals signer newThreshold)
    (h : removeSigner i.toContext approvals signer newThreshold s = .ok t) : Move i s t := by
  simp only [removeSigner, bind_eq_ok, getRequiredSigners, okOr_eq_ok,
    requireThresholdApprovals_eq_ok, rejectIf_eq_ok, validateUniqueSigners_eq_ok,
    validateThreshold_eq_ok, pure_eq_ok, not_not] at h
  obtain ⟨signers, hsigners, _, happroved, _, hold, _, ⟨hne, hnodup⟩, _, ⟨hpos, hle⟩, rfl⟩ := h
  exact .left approvals signer newThreshold signers hcall happroved hsigners hold hne hnodup hpos hle
    rfl

theorem proposeTransaction_move {i : Invocation} {proposer target : Address} {function : String}
    {args : List Val} {expiryLedgers : ℕ} {s t : State} {txId : ℕ}
    (hcall : i.call = .proposeTransaction proposer target function args expiryLedgers)
    (h : proposeTransaction i.toContext proposer target function args expiryLedgers s =
      .ok (txId, t)) : Move i s t := by
  simp only [proposeTransaction, proposePhase, requireSigner, getRequiredSigners, bind_eq_ok,
    okOr_eq_ok, rejectIf_eq_ok, requireAuth_eq_ok, unwrap_eq_ok, checkedAddU64_eq_some, pure_eq_ok,
    Prod.mk.injEq, not_not] at h
  obtain ⟨_, ⟨signers, hsigners, hmem⟩, _, hauth, _, _, id, hid, _, ⟨_, rfl⟩, rfl, rfl⟩ := h
  exact .proposed proposer target function args expiryLedgers signers id hcall hsigners hmem hauth hid
    rfl

theorem signTransaction_move {i : Invocation} {signer : Address} {txId n : ℕ} {s t : State}
    (hcall : i.call = .signTransaction signer txId)
    (h : signTransaction i.toContext signer txId s = .ok (n, t)) : Move i s t := by
  simp only [signTransaction, votePhase, requireSigner, getRequiredSigners, getRequiredTransaction,
    bind_eq_ok, okOr_eq_ok, rejectIf_eq_ok, requireAuth_eq_ok, requireFresh_eq_ok, pure_eq_ok,
    Prod.mk.injEq, not_not, not_lt] at h
  obtain ⟨_, ⟨signers, hsigners, hmem⟩, _, hauth, tx, htx, _, hopen, _, hexpiry, _, hfresh, _, hnew,
    _, rfl⟩ := h
  exact .signed signer txId signers tx hcall hsigners hmem hauth htx (by simpa using hopen) hexpiry
    hfresh hnew rfl

theorem cleanupExpired_move {i : Invocation} {txId : ℕ} {s t : State}
    (hcall : i.call = .cleanupExpired txId) (h : cleanupExpired i.toContext txId s = .ok t) :
    Move i s t := by
  simp only [cleanupExpired, getRequiredTransaction, bind_eq_ok, okOr_eq_ok, rejectIf_eq_ok,
    pure_eq_ok] at h
  obtain ⟨tx, htx, _, hopen, _, _, rfl⟩ := h
  exact .cleaned txId tx hcall htx (by simpa using hopen) rfl

/-- Every returning call is one of the eight moves. -/
theorem exec_move {i : Invocation} {s t : State} (h : exec i s = .ok t) : Move i s t := by
  unfold exec at h
  cases hcall : i.call <;> simp only [hcall] at h
  case initializeWallet | initializeWithConfig | initializeWithValidity | initializeLegacy
      | initializeSimple =>
    exact initializeInternal_move (by rw [hcall]; rfl) h
  case addSigner => exact addSigner_move hcall h
  case removeSigner => exact removeSigner_move hcall h
  case proposeTransaction =>
    obtain ⟨txId, h⟩ := map_snd_eq_ok.mp h
    exact proposeTransaction_move hcall h
  case signTransaction =>
    obtain ⟨n, h⟩ := map_snd_eq_ok.mp h
    exact signTransaction_move hcall h
  case executeTransaction | executeProposal | executeProposalU32 =>
    obtain ⟨v, h⟩ := map_snd_eq_ok.mp h
    obtain ⟨call, h⟩ := (executes_nil i.toEnv s).snoc h
    exact .executed _ (by rw [hcall]; rfl) h
  case executeBatch | executeProposalsBatch | executeProposalsBatchU32 =>
    obtain ⟨done, h⟩ := map_snd_eq_ok.mp h
    obtain ⟨calls, h⟩ := executeBatch_executes (executes_nil i.toEnv s) h
    exact .executed calls (by rw [hcall]; rfl) h
  case cleanupExpired => exact cleanupExpired_move hcall h
  all_goals refine .limited (by rw [hcall]; rfl) ?_
  case configureTokenLimit approvals token dailyLimit =>
    simp only [configureTokenLimit, bind_eq_ok, pure_eq_ok] at h
    obtain ⟨_, _, _, _, rfl⟩ := h
    rfl
  case setTokenSpendingLimit =>
    simp only [setTokenSpendingLimit, bind_eq_ok, pure_eq_ok] at h
    obtain ⟨_, _, rfl⟩ := h
    rfl
  case checkSpendingLimit =>
    simp only [checkSpendingLimit, bind_eq_ok] at h
    obtain ⟨_, _, h⟩ := h
    split at h
    · simp only [bind_eq_ok, pure_eq_ok] at h
      obtain ⟨_, _, _, _, _, _, rfl⟩ := h
      rfl
    · simp only [pure_eq_ok] at h
      rw [h]

/-- The calls into targets that one invocation makes. -/
theorem exec_dispatched {i : Invocation} {s t : State} (h : exec i s = .ok t) :
    ∃ calls, t.dispatched = s.dispatched ++ calls ∧
      ∀ call ∈ calls, ∃ tx, Executable i.toEnv s call tx := by
  have hnone : t.dispatched = s.dispatched → ∃ calls, t.dispatched = s.dispatched ++ calls ∧
      ∀ call ∈ calls, ∃ tx, Executable i.toEnv s call tx :=
    fun hsame => ⟨[], by rw [hsame, List.append_nil], by simp⟩
  cases exec_move h with
  | executed calls _ h => exact ⟨calls, by rw [h.effect], h.executable⟩
  | limited _ h =>
    apply hnone
    rw [h]
  | configured _ _ _ _ _ _ _ _ _ _ _ h | joined _ _ _ _ _ _ _ _ _ _ h
    | left _ _ _ _ _ _ _ _ _ _ _ _ h | proposed _ _ _ _ _ _ _ _ _ _ _ _ h
    | signed _ _ _ _ _ _ _ _ _ _ _ _ _ h | cleaned _ _ _ _ _ h =>
    apply hnone
    rw [h]

end SorobanKit.Multisig
