import SorobanKit.MultisigMoves

set_option autoImplicit false

/-!
# The signer set of a wallet

Whatever initialization and changes of the signer set the wallet accepts, its signers can
reach its threshold. `Configured` is the invariant; the rest of the module draws the
consequences for approvals and for a fresh proposal.
-/
namespace SorobanKit.Multisig
open HostInteger HostInvocation HostRuns

structure Configured (s : State) (signers : List Address) (weights : Weights) (threshold : ℕ) :
    Prop where
  signers_eq : s.signers = some signers
  weights_eq : s.weights = some weights
  threshold_eq : s.threshold = some threshold
  next_isSome : s.nextTransactionId.isSome
  nonempty : signers ≠ []
  distinct : signers.Nodup
  proper : ProperWeights weights
  pos : 1 ≤ threshold
  reachable : threshold ≤ totalWeight signers weights

/-- A wallet that nobody initialized, or one in good order. -/
def Wallet (s : State) : Prop :=
  s.signers = none ∨ ∃ signers weights threshold, Configured s signers weights threshold

theorem Configured.congr {s t : State} {signers : List Address} {weights : Weights} {threshold : ℕ}
    (h : Configured s signers weights threshold) (hsigners : t.signers = s.signers)
    (hweights : t.weights = s.weights) (hthreshold : t.threshold = s.threshold)
    (hnext : t.nextTransactionId.isSome) : Configured t signers weights threshold :=
  { h with
    signers_eq := by rw [hsigners, h.signers_eq]
    weights_eq := by rw [hweights, h.weights_eq]
    threshold_eq := by rw [hthreshold, h.threshold_eq]
    next_isSome := hnext }

theorem Wallet.congr {s t : State} (h : Wallet s) (hsigners : t.signers = s.signers)
    (hweights : t.weights = s.weights) (hthreshold : t.threshold = s.threshold)
    (hnext : s.nextTransactionId.isSome → t.nextTransactionId.isSome) : Wallet t := by
  rcases h with hnone | ⟨signers, weights, threshold, h⟩
  · left
    rw [hsigners, hnone]
  · right
    exact ⟨signers, weights, threshold, h.congr hsigners hweights hthreshold (hnext h.next_isSome)⟩

theorem Wallet.configured {s : State} {signers : List Address} (h : Wallet s)
    (hsigners : s.signers = some signers) :
    ∃ weights threshold, Configured s signers weights threshold := by
  rcases h with hnone | ⟨signers', weights, threshold, h⟩
  · rw [hnone] at hsigners
    cases hsigners
  · have heq := h.signers_eq
    rw [hsigners] at heq
    cases heq
    exact ⟨weights, threshold, h⟩

theorem ProperWeights.remove {weights : Weights} (h : ProperWeights weights) (signer : Address) :
    ProperWeights (Function.update weights signer none) := by
  intro a w hw
  by_cases ha : a = signer
  · subst ha
    rw [Function.update_self] at hw
    cases hw
  · rw [Function.update_of_ne ha] at hw
    exact h a w hw

theorem exec_wallet {i : Invocation} {s t : State} (hs : Wallet s) (h : exec i s = .ok t) :
    Wallet t := by
  cases exec_move h with
  | configured signers weights threshold _ _ _ hne hnodup hproper hpos hle h =>
    subst h
    exact .inr ⟨signers, weights, threshold, rfl, rfl, rfl, rfl, hne, hnodup, hproper, hpos, hle⟩
  | joined approvals signer newThreshold signers _ _ hsigners hnew hpos hle h =>
    subst h
    obtain ⟨weights, threshold, hs⟩ := hs.configured hsigners
    rw [hs.weights_eq, Option.getD_some] at hle ⊢
    refine .inr ⟨signers ++ [signer], _, newThreshold, rfl, rfl, rfl, hs.next_isSome, by simp, ?_,
      hs.proper.update signer properWeights_one, hpos, hle⟩
    rw [← List.concat_eq_append]
    exact hs.distinct.concat hnew
  | left approvals signer newThreshold signers _ _ hsigners _ hne hnodup hpos hle h =>
    subst h
    obtain ⟨weights, threshold, hs⟩ := hs.configured hsigners
    rw [hs.weights_eq, Option.getD_some] at hle ⊢
    exact .inr ⟨_, _, newThreshold, rfl, rfl, rfl, hs.next_isSome, hne, hnodup,
      hs.proper.remove signer, hpos, hle⟩
  | proposed _ _ _ _ _ _ _ _ _ _ _ _ h =>
    subst h
    exact hs.congr rfl rfl rfl fun _ => rfl
  | signed _ _ _ _ _ _ _ _ _ _ _ _ _ h =>
    subst h
    exact hs.congr rfl rfl rfl id
  | executed _ _ h =>
    rw [h.effect]
    exact hs.congr rfl rfl rfl id
  | cleaned _ _ _ _ _ h =>
    subst h
    exact hs.congr rfl rfl rfl id
  | limited _ h =>
    rw [h]
    exact hs.congr rfl rfl rfl id

theorem run_wallet (is : List Invocation) : Wallet (run State.empty is) :=
  run_invariant (fun _ _ _ hs h => exec_wallet hs h) (.inl rfl) is

theorem exec_signers_isSome {i : Invocation} {s t : State} (h : exec i s = .ok t)
    (hs : s.signers.isSome ∨ i.call.kind = .configuration) : t.signers.isSome := by
  have hkeep : i.call.kind ≠ .configuration → s.signers.isSome := by
    intro hkind
    simpa [hkind] using hs
  cases exec_move h with
  | configured _ _ _ _ _ _ _ _ _ _ _ h | joined _ _ _ _ _ _ _ _ _ _ h
    | left _ _ _ _ _ _ _ _ _ _ _ _ h =>
    subst h
    rfl
  | proposed _ _ _ _ _ _ _ hcall _ _ _ _ h | signed _ _ _ _ hcall _ _ _ _ _ _ _ _ h
    | cleaned _ _ hcall _ _ h =>
    subst h
    refine hkeep ?_
    rw [hcall]
    exact Kind.noConfusion
  | executed _ hkind h =>
    rw [h.effect]
    refine hkeep ?_
    rw [hkind]
    exact Kind.noConfusion
  | limited hkind h =>
    rw [h]
    refine hkeep ?_
    rw [hkind]
    exact Kind.noConfusion

theorem run_signers_isSome {is : List Invocation}
    (h : ∃ e ∈ history exec State.empty is, e.invocation.call.kind = .configuration) :
    (run State.empty is).signers.isSome := by
  let Started : List (Entry State Invocation) → State → Prop := fun past s =>
    (∃ e ∈ past, e.invocation.call.kind = .configuration) → s.signers.isSome
  have hstep : ∀ past s i t, Started past s → True → exec i s = .ok t →
      Started (past ++ [⟨s, i, t⟩]) t := by
    rintro past s i t hs _ hexec ⟨e, he, hkind⟩
    refine exec_signers_isSome hexec ?_
    rcases List.mem_append.mp he with he | he
    · exact .inl (hs ⟨e, he, hkind⟩)
    · rw [List.mem_singleton.mp he] at hkind
      exact .inr hkind
  have hempty : Started [] State.empty := by
    rintro ⟨e, he, _⟩
    cases he
  exact history_invariant_along hstep hempty (along_true exec State.empty is) h

theorem exec_next {i : Invocation} {s t : State} (h : exec i s = .ok t) {bound : ℕ}
    (hs : ∀ n, s.nextTransactionId = some n → n ≤ bound) :
    ∀ n, t.nextTransactionId = some n → n ≤ bound + if i.call.kind = .proposal then 1 else 0 := by
  have hmono : ∀ n, s.nextTransactionId = some n →
      n ≤ bound + if i.call.kind = .proposal then 1 else 0 :=
    fun n hn => Nat.le_add_right_of_le (hs n hn)
  intro n hn
  cases exec_move h with
  | configured _ _ _ _ _ _ _ _ _ _ _ h =>
    subst h
    cases hn
    exact Nat.zero_le _
  | proposed _ _ _ _ _ _ txId hcall _ _ _ hid h =>
    subst h
    cases hn
    rw [hcall]
    exact Nat.succ_le_succ (hs txId hid)
  | executed _ _ h =>
    rw [h.effect] at hn
    exact hmono n hn
  | limited _ h =>
    rw [h] at hn
    exact hmono n hn
  | joined _ _ _ _ _ _ _ _ _ _ h | left _ _ _ _ _ _ _ _ _ _ _ _ h
    | signed _ _ _ _ _ _ _ _ _ _ _ _ _ h | cleaned _ _ _ _ _ h =>
    subst h
    exact hmono n hn

theorem run_next_le {s : State} {bound : ℕ} (hs : ∀ n, s.nextTransactionId = some n → n ≤ bound)
    (is : List Invocation) :
    ∀ n, (run s is).nextTransactionId = some n → n ≤ bound + is.countP (·.call.kind = .proposal) := by
  induction is generalizing s bound with
  | nil => exact hs
  | cons i is ih =>
    have hstep : ∀ n, (step exec s i).nextTransactionId = some n →
        n ≤ bound + if i.call.kind = .proposal then 1 else 0 := by
      rcases step_cases exec s i with hok | hsame
      · exact exec_next hok hs
      · rw [hsame]
        exact fun n hn => Nat.le_add_right_of_le (hs n hn)
    intro n hn
    have hle := ih hstep n hn
    rw [List.countP_cons]
    simp only [decide_eq_true_eq]
    omega

theorem Configured.weight_eq {s : State} {signers : List Address} {weights : Weights}
    {threshold : ℕ} (h : Configured s signers weights threshold) :
    signerWeightInternal s = getWeight weights := by
  funext a
  unfold signerWeightInternal
  rw [h.weights_eq]

theorem ProperWeights.getWeight {weights : Weights} (h : ProperWeights weights) (a : Address) :
    1 ≤ getWeight weights a ∧ getWeight weights a ≤ u32Max := by
  unfold Multisig.getWeight
  cases ha : weights a with
  | none => exact properWeights_one
  | some w => exact h a w ha

theorem Configured.threshold_le_sum {s : State} {signers : List Address} {weights : Weights}
    {threshold : ℕ} (h : Configured s signers weights threshold) :
    threshold ≤ min ((signers.map (signerWeightInternal s)).sum) u32Max := by
  rw [h.weight_eq, ← totalWeight_eq]
  exact h.reachable

/-- All signers together pass the approval check. -/
theorem Configured.approved {s : State} {signers : List Address} {weights : Weights}
    {threshold : ℕ} (h : Configured s signers weights threshold) {ctx : Context}
    (hauth : ∀ a ∈ signers, a ∈ ctx.auths) : requireThresholdApprovals ctx signers s = .ok () := by
  rw [requireThresholdApprovals_eq_ok]
  exact ⟨h.nonempty, h.distinct, ⟨signers, h.signers_eq, fun a ha => ha⟩, hauth, threshold,
    h.threshold_eq, h.threshold_le_sum⟩

/-- A proposal that `signers` have signed on top of its first signatures. -/
def Transaction.signedBy (tx : Transaction) (weight : Address → ℕ) (signers : List Address) :
    Transaction :=
  { tx with
    signatures := tx.signatures ++ signers
    accumulatedWeight :=
      signers.foldl (fun acc a => saturatingAddU32 acc (weight a)) tx.accumulatedWeight }

theorem run_signatures {s : State} {env : Env} {txId : ℕ} {tx : Transaction}
    {signers : List Address} (voters : List Address) (hsigners : s.signers = some signers)
    (htx : s.transaction txId = some tx) (hopen : tx.executed = false)
    (hexpiry : env.sequence ≤ tx.expiryLedger) (hfresh : Fresh env.toContext tx s)
    (hmem : ∀ a ∈ voters, a ∈ signers ∧ a ∈ env.auths ∧ a ∉ tx.signatures)
    (hnodup : voters.Nodup) :
    run s (voters.map fun a => ⟨env, .signTransaction a txId⟩) =
      { s with
        transaction := Function.update s.transaction txId
          (some (tx.signedBy (signerWeightInternal s) voters)) } := by
  induction voters generalizing s tx with
  | nil =>
    have hsame : tx.signedBy (signerWeightInternal s) [] = tx := by
      simp [Transaction.signedBy]
    rw [hsame, ← htx, Function.update_eq_self]
    rfl
  | cons a voters ih =>
    obtain ⟨⟨ha, hauth, hnew⟩, hmem⟩ := List.forall_mem_cons.mp hmem
    obtain ⟨hnot, hnodup⟩ := List.nodup_cons.mp hnodup
    let next : State := { s with
      transaction := Function.update s.transaction txId
        (some (tx.signedBy (signerWeightInternal s) [a])) }
    have hexec : exec ⟨env, .signTransaction a txId⟩ s = .ok next := by
      simp only [exec, map_snd_eq_ok, signTransaction, votePhase, requireSigner,
        getRequiredSigners, getRequiredTransaction, bind_eq_ok, okOr_eq_ok, rejectIf_eq_ok,
        requireAuth_eq_ok, requireFresh_eq_ok, pure_eq_ok, Prod.mk.injEq, not_not, not_lt]
      exact ⟨_, (), ⟨signers, hsigners, ha⟩, (), hauth, tx, htx, (), by simp [hopen], (), hexpiry,
        (), hfresh, (), hnew, rfl, rfl⟩
    have hnext : next.transaction txId = some (tx.signedBy (signerWeightInternal s) [a]) :=
      Function.update_self ..
    have hrest : ∀ b ∈ voters, b ∈ signers ∧ b ∈ env.auths ∧
        b ∉ (tx.signedBy (signerWeightInternal s) [a]).signatures := by
      intro b hb
      obtain ⟨hsigner, hauthb, hfree⟩ := hmem b hb
      refine ⟨hsigner, hauthb, fun hsigned => ?_⟩
      rcases List.mem_append.mp hsigned with hsigned | hsigned
      · exact hfree hsigned
      · rw [List.mem_singleton.mp hsigned] at hb
        exact hnot hb
    rw [List.map_cons, run, run_cons_of_ok hexec]
    refine (ih (s := next) hsigners hnext hopen hexpiry hfresh hrest hnodup).trans ?_
    have htail : (tx.signedBy (signerWeightInternal s) [a]).signedBy (signerWeightInternal next)
        voters = tx.signedBy (signerWeightInternal s) (a :: voters) := by
      simp only [Transaction.signedBy, List.append_assoc, List.cons_append, List.nil_append]
      rfl
    rw [htail]
    simp only [next, Function.update_idem]

/-- One signer proposes a call, the others sign it in turn, and it is executed. -/
def ceremony (env : Env) (signers : List Address) (proposer : Address) (expiryLedgers : ℕ)
    (call : Dispatch) : List Invocation :=
  ⟨env, .proposeTransaction proposer call.target call.function call.args expiryLedgers⟩ ::
    ((signers.erase proposer).map fun a => ⟨env, .signTransaction a call.txId⟩) ++
    [⟨env, .executeTransaction call.txId⟩]

theorem saturatingAddU32_ge {a b : ℕ} (ha : a ≤ u32Max) : a ≤ saturatingAddU32 a b := by
  unfold saturatingAddU32
  omega

theorem Configured.proposal_accepted {s : State} {signers : List Address} {weights : Weights}
    {threshold txId : ℕ} (h : Configured s signers weights threshold) {env : Env}
    {proposer : Address} (hproposer : proposer ∈ signers) (hauth : proposer ∈ env.auths)
    {expiryLedgers : ℕ}
    (hmax : ∀ maxValid, s.maxProposalValidityLedgers = some maxValid → expiryLedgers ≤ maxValid)
    (hid : s.nextTransactionId = some txId) (hroom : txId < u64Max) (target : Address)
    (function : String) (args : List Val) :
    ∃ t, exec ⟨env, .proposeTransaction proposer target function args expiryLedgers⟩ s = .ok t := by
  simp only [exec, map_snd_eq_ok, proposeTransaction, proposePhase, requireSigner,
    getRequiredSigners, bind_eq_ok, okOr_eq_ok, rejectIf_eq_ok, requireAuth_eq_ok, unwrap_eq_ok,
    checkedAddU64_eq_some, pure_eq_ok, Prod.mk.injEq, not_not]
  refine ⟨_, txId, (), ⟨signers, h.signers_eq, hproposer⟩, (), hauth, (), ?_, _, hid, _,
    ⟨hroom, rfl⟩, rfl, rfl⟩
  rintro ⟨maxValid, hvalid, hlt⟩
  exact absurd (hmax maxValid hvalid) (by omega)

/-- The proposal that `propose_phase` stores for a call. -/
def Dispatch.proposal (call : Dispatch) (ctx : Context) (proposer : Address) (expiryLedgers : ℕ)
    (s : State) : Transaction :=
  { id := call.txId, proposer, target := call.target, function := call.function,
    args := call.args, signatures := [proposer],
    accumulatedWeight := signerWeightInternal s proposer, executed := false,
    expiryLedger := saturatingAddU32 ctx.sequence expiryLedgers,
    createdLedger := ctx.sequence, nonce := call.txId }

theorem Configured.proposal_effect {s t : State} {signers : List Address} {weights : Weights}
    {threshold : ℕ} (h : Configured s signers weights threshold) {env : Env} {proposer : Address}
    {expiryLedgers : ℕ} {call : Dispatch} (hid : s.nextTransactionId = some call.txId)
    (hpropose : exec ⟨env, .proposeTransaction proposer call.target call.function call.args
      expiryLedgers⟩ s = .ok t) :
    proposer ∈ signers ∧ t = { s with
      transaction := Function.update s.transaction call.txId
        (some (call.proposal env.toContext proposer expiryLedgers s)),
      nextTransactionId := some (call.txId + 1) } := by
  cases exec_move hpropose with
  | proposed _ _ _ _ _ current txId hcall hsigners hmem _ hnext ht =>
    cases hcall
    rw [h.signers_eq] at hsigners
    cases hsigners
    rw [hid] at hnext
    cases hnext
    exact ⟨hmem, ht⟩
  | configured _ _ _ _ hkind | executed _ hkind | limited hkind => cases hkind
  | joined _ _ _ _ hcall | left _ _ _ _ hcall | signed _ _ _ _ hcall | cleaned _ _ hcall =>
    cases hcall

theorem Configured.signedBy_reaches {s : State} {signers : List Address} {weights : Weights}
    {threshold : ℕ} (h : Configured s signers weights threshold) {proposer : Address}
    (hproposer : proposer ∈ signers) {tx : Transaction}
    (hweight : tx.accumulatedWeight = signerWeightInternal s proposer) :
    threshold ≤
      (tx.signedBy (signerWeightInternal s) (signers.erase proposer)).accumulatedWeight := by
  have hle := h.reachable
  have hperm := ((List.perm_cons_erase hproposer).map (getWeight weights)).sum_eq
  rw [totalWeight_eq, hperm, List.map_cons, List.sum_cons] at hle
  simp only [Transaction.signedBy]
  rw [hweight, h.weight_eq, foldl_saturatingAddU32 _ _ (h.proper.getWeight proposer).2]
  exact hle

theorem Configured.ceremony_dispatches {s : State} {signers : List Address} {weights : Weights}
    {threshold : ℕ} (h : Configured s signers weights threshold) {env : Env}
    (hauth : ∀ a ∈ signers, a ∈ env.auths) (hseq : env.sequence ≤ u32Max) {proposer : Address}
    {expiryLedgers : ℕ} {call : Dispatch} (hid : s.nextTransactionId = some call.txId)
    (hinvoke : (env.invoke call).isSome) {t : State}
    (hpropose : exec ⟨env, .proposeTransaction proposer call.target call.function call.args
      expiryLedgers⟩ s = .ok t) :
    (run s (ceremony env signers proposer expiryLedgers call)).dispatched =
      s.dispatched ++ [call] := by
  obtain ⟨v, hinvoke⟩ := Option.isSome_iff_exists.mp hinvoke
  obtain ⟨hproposer, ht⟩ := h.proposal_effect hid hpropose
  have hconf : Configured t signers weights threshold :=
    h.congr (by rw [ht]) (by rw [ht]) (by rw [ht]) (by rw [ht]; rfl)
  have hdispatched : t.dispatched = s.dispatched := by rw [ht]
  generalize htx : call.proposal env.toContext proposer expiryLedgers s = tx at ht
  have hstored : t.transaction call.txId = some tx := by
    rw [ht]
    exact Function.update_self ..
  have hopen : tx.executed = false := by rw [← htx]; rfl
  have hsigned : tx.signatures = [proposer] := by rw [← htx]; rfl
  have hweight : tx.accumulatedWeight = signerWeightInternal t proposer := by
    rw [hconf.weight_eq, ← h.weight_eq, ← htx]
    rfl
  have hexpiry : env.sequence ≤ tx.expiryLedger := by
    rw [← htx]
    exact saturatingAddU32_ge hseq
  have hfresh : Fresh env.toContext tx t := by
    intro maxValid _
    rw [← htx]
    show env.sequence - env.sequence ≤ maxValid
    omega
  have hothers : ∀ a ∈ signers.erase proposer, a ∈ signers ∧ a ∈ env.auths ∧ a ∉ tx.signatures := by
    intro a ha
    have hsigner := List.mem_of_mem_erase ha
    refine ⟨hsigner, hauth a hsigner, fun hmem => ?_⟩
    rw [hsigned] at hmem
    rw [List.mem_singleton.mp hmem] at ha
    exact h.distinct.not_mem_erase ha
  have hsign := run_signatures (signers.erase proposer) hconf.signers_eq hstored hopen hexpiry hfresh
    hothers (h.distinct.erase proposer)
  have hreached := hconf.signedBy_reaches hproposer hweight
  have hcall : call = ⟨call.txId, tx.target, tx.function, tx.args⟩ := by rw [← htx]; rfl
  have hexecute : ∃ u, exec ⟨env, .executeTransaction call.txId⟩ (run t
      ((signers.erase proposer).map fun a => ⟨env, .signTransaction a call.txId⟩)) = .ok u ∧
      u.dispatched = s.dispatched ++ [call] := by
    rw [hsign]
    simp only [exec, map_snd_eq_ok, executePhase, bind_eq_ok, getRequiredTransaction, okOr_eq_ok,
      rejectIf_eq_ok, requireFresh_eq_ok, unwrap_eq_ok, pure_eq_ok, not_lt, Prod.mk.injEq]
    refine ⟨_, ⟨v, _, Function.update_self .., (), by simp [hopen, Transaction.signedBy], (), hexpiry,
      (), hfresh, threshold, hconf.threshold_eq, (), hreached, v, ?_, rfl, rfl⟩, ?_⟩
    · rw [hcall] at hinvoke
      exact hinvoke
    · rw [← hdispatched]
      exact congrArg (fun c => t.dispatched ++ [c]) hcall.symm
  obtain ⟨u, hexecute, hlast⟩ := hexecute
  unfold ceremony
  rw [List.cons_append, run, run_cons_of_ok hpropose, run_append]
  rw [run] at hexecute
  rw [run_cons_of_ok hexecute]
  exact hlast

/-- An initialized wallet never bricks itself: its signers are distinct, each of weight at
    least 1, and all of them together reach the threshold, in an approval check and for any
    accepted proposal. A signer's proposal is accepted as long as the ids, of 64 bits, last. -/
theorem wallet_never_bricked (is : List Invocation)
    (hinit : ∃ e ∈ history exec State.empty is, e.invocation.call.kind = .configuration) :
    ∃ signers weights threshold,
      (run State.empty is).signers = some signers ∧
      (run State.empty is).weights = some weights ∧
      (run State.empty is).threshold = some threshold ∧
      signers ≠ [] ∧ signers.Nodup ∧
      (∀ a ∈ signers, 1 ≤ signerWeightInternal (run State.empty is) a) ∧
      1 ≤ threshold ∧ threshold ≤ totalWeight signers weights ∧
      (∀ ctx : Context, (∀ a ∈ signers, a ∈ ctx.auths) →
        requireThresholdApprovals ctx signers (run State.empty is) = .ok ()) ∧
      (∀ (env : Env) (proposer : Address) (expiryLedgers : ℕ) (call : Dispatch) (t : State),
        (∀ a ∈ signers, a ∈ env.auths) → env.sequence ≤ u32Max →
        (run State.empty is).nextTransactionId = some call.txId → (env.invoke call).isSome →
        exec ⟨env, .proposeTransaction proposer call.target call.function call.args expiryLedgers⟩
          (run State.empty is) = .ok t →
        (run (run State.empty is) (ceremony env signers proposer expiryLedgers call)).dispatched =
          (run State.empty is).dispatched ++ [call]) ∧
      ∀ (env : Env) (proposer target : Address) (function : String) (args : List Val)
        (expiryLedgers : ℕ), proposer ∈ signers → proposer ∈ env.auths →
        (∀ maxValid, (run State.empty is).maxProposalValidityLedgers = some maxValid →
          expiryLedgers ≤ maxValid) →
        is.countP (·.call.kind = .proposal) < u64Max →
        ∃ t, exec ⟨env, .proposeTransaction proposer target function args expiryLedgers⟩
          (run State.empty is) = .ok t := by
  obtain ⟨signers, hsigners⟩ := Option.isSome_iff_exists.mp (run_signers_isSome hinit)
  obtain ⟨weights, threshold, h⟩ := (run_wallet is).configured hsigners
  refine ⟨signers, weights, threshold, hsigners, h.weights_eq, h.threshold_eq, h.nonempty,
    h.distinct, fun a _ => ?_, h.pos, h.reachable, fun ctx hauth => h.approved hauth, ?_, ?_⟩
  · rw [h.weight_eq]
    exact (h.proper.getWeight a).1
  · intro env proposer expiryLedgers call t hauth hseq hid hinvoke hpropose
    exact h.ceremony_dispatches hauth hseq hid hinvoke hpropose
  · intro env proposer target function args expiryLedgers hproposer hauth hmax hcount
    obtain ⟨txId, hid⟩ := Option.isSome_iff_exists.mp h.next_isSome
    have hnext : txId ≤ 0 + is.countP (·.call.kind = .proposal) :=
      run_next_le (s := State.empty) (fun _ hn => by cases hn) is txId hid
    exact h.proposal_accepted hproposer hauth hmax hid (by omega) target function args

def demoOwners : List Address := [⟨1⟩, ⟨2⟩, ⟨3⟩]

/-- Everyone authorizes, and every target answers. -/
def demoEnv : Env := { sequence := 10, auths := demoOwners, invoke := fun _ => some 0 }

def demoSetup : Invocation := ⟨demoEnv, .initializeSimple demoOwners 2⟩

theorem wallet_never_bricked_demo :
    requireThresholdApprovals demoEnv.toContext demoOwners (run State.empty [demoSetup]) = .ok () := by
  obtain ⟨signers, _, _, hsigners, _, _, _, _, _, _, _, happroved, _⟩ :=
    wallet_never_bricked [demoSetup] ⟨_, List.mem_singleton.mpr rfl, rfl⟩
  cases hsigners
  exact happroved demoEnv.toContext fun a ha => ha

end SorobanKit.Multisig
