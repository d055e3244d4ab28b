import SorobanKit.MultisigSigners

set_option autoImplicit false

/-!
# The record of a proposal

What the wallet stores about a proposal, compared with the history of the run: which call
created it, who voted on it and with which weight at that time, and how often its target
was called.
-/
namespace SorobanKit.Multisig
open HostInteger HostInvocation HostRuns

/-- The id that a call gave to a new proposal. -/
def created (e : Entry State Invocation) : Option ℕ :=
  if e.invocation.call.kind = .proposal then e.before.nextTransactionId else none

/-- The vote of a call on proposal `txId`: who, and the weight that signer had. -/
def vote (txId : ℕ) (e : Entry State Invocation) : Option (Address × ℕ) :=
  match e.invocation.call with
  | .proposeTransaction proposer _ _ _ _ =>
    if e.before.nextTransactionId = some txId then
      some (proposer, signerWeightInternal e.before proposer)
    else none
  | .signTransaction signer id =>
    if id = txId then some (signer, signerWeightInternal e.before signer) else none
  | _ => none

def votes (txId : ℕ) (past : List (Entry State Invocation)) : List (Address × ℕ) :=
  past.filterMap (vote txId)

theorem votes_concat (txId : ℕ) (past : List (Entry State Invocation))
    (e : Entry State Invocation) :
    votes txId (past ++ [e]) = votes txId past ++ (vote txId e).toList := by
  unfold votes
  rw [List.filterMap_append]
  cases h : vote txId e <;> simp [h]

theorem created_concat (past : List (Entry State Invocation)) (e : Entry State Invocation) :
    (past ++ [e]).filterMap created = past.filterMap created ++ (created e).toList := by
  rw [List.filterMap_append]
  cases h : created e <;> simp [h]

theorem vote_eq_none {e : Entry State Invocation} (hproposal : e.invocation.call.kind ≠ .proposal)
    (hsignature : e.invocation.call.kind ≠ .signature) (txId : ℕ) : vote txId e = none := by
  unfold vote
  split
  · next hcall => exact absurd (by rw [hcall]; rfl) hproposal
  · next hcall => exact absurd (by rw [hcall]; rfl) hsignature
  · rfl

theorem created_eq_none {e : Entry State Invocation}
    (hproposal : e.invocation.call.kind ≠ .proposal) : created e = none := if_neg hproposal

/-- The call that `tx` was created by: it fixed the target and started the clock. -/
structure Creates (e : Entry State Invocation) (txId : ℕ) (tx : Transaction) : Prop where
  created_eq : created e = some txId
  call_eq : ∃ proposer expiryLedgers,
    e.invocation.call = .proposeTransaction proposer tx.target tx.function tx.args expiryLedgers ∧
    tx.expiryLedger = saturatingAddU32 e.invocation.sequence expiryLedgers
  ledger_eq : tx.createdLedger = e.invocation.sequence

/-- The stored proposal agrees with the history. -/
structure Recorded (past : List (Entry State Invocation)) (txId : ℕ) (tx : Transaction) :
    Prop where
  origin : ∃ e ∈ past, Creates e txId tx
  signatures_eq : tx.signatures = (votes txId past).map Prod.fst
  distinct : tx.signatures.Nodup
  weight_eq : tx.accumulatedWeight = min (((votes txId past).map Prod.snd).sum) u32Max

theorem Recorded.concat {past : List (Entry State Invocation)} {txId : ℕ} {tx : Transaction}
    (h : Recorded past txId tx) {e : Entry State Invocation} (hvote : vote txId e = none) :
    Recorded (past ++ [e]) txId tx := by
  have hvotes : votes txId (past ++ [e]) = votes txId past := by
    rw [votes_concat, hvote, Option.toList_none, List.append_nil]
  obtain ⟨creation, hmem, hcreates⟩ := h.origin
  refine ⟨⟨creation, List.mem_append_left _ hmem, hcreates⟩, ?_, h.distinct, ?_⟩
  · rw [hvotes]
    exact h.signatures_eq
  · rw [hvotes]
    exact h.weight_eq

structure Tracked (past : List (Entry State Invocation)) (s : State) : Prop where
  blank : s.signers = none → s.nextTransactionId = none
  unborn : ∀ txId, (∀ n, s.nextTransactionId = some n → n ≤ txId) →
    s.transaction txId = none ∧ votes txId past = []
  created_lt : ∀ txId ∈ past.filterMap created, ∃ n, s.nextTransactionId = some n ∧ txId < n
  created_nodup : (past.filterMap created).Nodup
  recorded : ∀ txId tx, s.transaction txId = some tx → Recorded past txId tx
  dispatched_nodup : (s.dispatched.map Dispatch.txId).Nodup
  executed : ∀ call ∈ s.dispatched, ∃ tx, s.transaction call.txId = some tx ∧
    tx.executed = true ∧ call = ⟨call.txId, tx.target, tx.function, tx.args⟩

theorem tracked_empty : Tracked [] State.empty where
  blank _ := rfl
  unborn _ _ := ⟨rfl, rfl⟩
  created_lt _ h := by cases h
  created_nodup := List.nodup_nil
  recorded _ _ h := by cases h
  dispatched_nodup := List.nodup_nil
  executed _ h := by cases h

section Steps
variable {past : List (Entry State Invocation)} {s t : State} {i : Invocation}

/-- A call that neither creates a proposal nor votes, and leaves the executed ones alone. -/
theorem Tracked.silent (h : Tracked past s) (hproposal : i.call.kind ≠ .proposal)
    (hsignature : i.call.kind ≠ .signature) (hsigners : t.signers = none → s.signers = none)
    (hnext : t.nextTransactionId = s.nextTransactionId)
    (hstored : ∀ txId tx, t.transaction txId = some tx →
      ∃ old, s.transaction txId = some old ∧ (tx = old ∨ tx = old.done))
    (hdispatched : (t.dispatched.map Dispatch.txId).Nodup)
    (hexecuted : ∀ call ∈ t.dispatched, ∃ tx, t.transaction call.txId = some tx ∧
      tx.executed = true ∧ call = ⟨call.txId, tx.target, tx.function, tx.args⟩) :
    Tracked (past ++ [⟨s, i, t⟩]) t := by
  have hvote := vote_eq_none (e := ⟨s, i, t⟩) hproposal hsignature
  have hcreated := created_eq_none (e := ⟨s, i, t⟩) hproposal
  refine ⟨fun hnone => ?_, fun txId hle => ?_, ?_, ?_, fun txId tx htx => ?_, hdispatched, hexecuted⟩
  · rw [hnext]
    exact h.blank (hsigners hnone)
  · rw [hnext] at hle
    obtain ⟨hnone, hvotes⟩ := h.unborn txId hle
    refine ⟨?_, by rw [votes_concat, hvotes, hvote txId]; rfl⟩
    cases htx : t.transaction txId with
    | none => rfl
    | some tx =>
      obtain ⟨old, hold, _⟩ := hstored txId tx htx
      rw [hnone] at hold
      cases hold
  · rw [created_concat, hcreated, Option.toList_none, List.append_nil, hnext]
    exact h.created_lt
  · rw [created_concat, hcreated, Option.toList_none, List.append_nil]
    exact h.created_nodup
  · obtain ⟨old, hold, rfl | rfl⟩ := hstored txId tx htx
    · exact (h.recorded txId tx hold).concat (hvote txId)
    · have hrec := (h.recorded txId old hold).concat (hvote txId)
      obtain ⟨creation, hmem, hcreates⟩ := hrec.origin
      exact ⟨⟨creation, hmem, hcreates.created_eq, hcreates.call_eq, hcreates.ledger_eq⟩,
        hrec.signatures_eq, hrec.distinct, hrec.weight_eq⟩

/-- A change of the configuration or of the spending limits. -/
theorem Tracked.reconfigured (h : Tracked past s) (hproposal : i.call.kind ≠ .proposal)
    (hsignature : i.call.kind ≠ .signature) (hsigners : t.signers = none → s.signers = none)
    (hnext : t.nextTransactionId = s.nextTransactionId)
    (htransaction : t.transaction = s.transaction) (hdispatched : t.dispatched = s.dispatched) :
    Tracked (past ++ [⟨s, i, t⟩]) t := by
  refine h.silent hproposal hsignature hsigners hnext (fun txId tx htx => ?_) ?_ ?_
  · rw [htransaction] at htx
    exact ⟨tx, htx, .inl rfl⟩
  · rw [hdispatched]
    exact h.dispatched_nodup
  · rw [hdispatched, htransaction]
    exact h.executed

theorem Tracked.executes {calls : List Dispatch} (h : Tracked past s)
    (hkind : i.call.kind = .execution) (hexec : Executes i.toEnv calls s t) :
    Tracked (past ++ [⟨s, i, t⟩]) t := by
  have ht := hexec.effect
  subst ht
  have hfresh : ∀ call ∈ s.dispatched, call.txId ∉ calls.map Dispatch.txId := by
    intro call hcall hmem
    obtain ⟨tx, htx, hdone, _⟩ := h.executed call hcall
    obtain ⟨other, hother, hid⟩ := List.mem_map.mp hmem
    obtain ⟨tx', hexecutable⟩ := hexec.executable other hother
    have hstored := hexecutable.stored
    rw [hid, htx] at hstored
    cases hstored
    rw [hexecutable.pending] at hdone
    cases hdone
  refine h.silent (by rw [hkind]; exact Kind.noConfusion) (by rw [hkind]; exact Kind.noConfusion) id
    rfl (fun txId tx htx => ?_) ?_ ?_
  · simp only [markExecuted] at htx
    split at htx
    · obtain ⟨old, hold, rfl⟩ := Option.map_eq_some_iff.mp htx
      exact ⟨old, hold, .inr rfl⟩
    · exact ⟨tx, htx, .inl rfl⟩
  · rw [List.map_append, List.nodup_append']
    refine ⟨h.dispatched_nodup, hexec.distinct, fun txId hold hnew => ?_⟩
    obtain ⟨call, hcall, rfl⟩ := List.mem_map.mp hold
    exact hfresh call hcall hnew
  · intro call hcall
    rcases List.mem_append.mp hcall with hcall | hcall
    · obtain ⟨tx, htx, hdone⟩ := h.executed call hcall
      exact ⟨tx, by simpa only [markExecuted, if_neg (hfresh call hcall)] using htx, hdone⟩
    · obtain ⟨tx, hexecutable⟩ := hexec.executable call hcall
      refine ⟨tx.done, ?_, rfl, hexecutable.call_eq⟩
      simp only [markExecuted, if_pos (List.mem_map_of_mem hcall), hexecutable.stored]
      rfl

theorem Tracked.executed_update (h : Tracked past s) {txId : ℕ} {entry : Option Transaction}
    (hopen : ∀ tx, s.transaction txId = some tx → tx.executed = false) :
    ∀ call ∈ s.dispatched, ∃ tx, Function.update s.transaction txId entry call.txId = some tx ∧
      tx.executed = true ∧ call = ⟨call.txId, tx.target, tx.function, tx.args⟩ := by
  intro call hcall
  obtain ⟨tx, htx, hdone, heq⟩ := h.executed call hcall
  have hid : call.txId ≠ txId := by
    rintro rfl
    rw [hopen tx htx] at hdone
    cases hdone
  exact ⟨tx, by rw [Function.update_of_ne hid, htx], hdone, heq⟩

theorem Tracked.cleaned {txId : ℕ} {tx : Transaction} (h : Tracked past s)
    (hcall : i.call = .cleanupExpired txId) (htx : s.transaction txId = some tx)
    (hopen : tx.executed = false)
    (ht : t = { s with transaction := Function.update s.transaction txId none }) :
    Tracked (past ++ [⟨s, i, t⟩]) t := by
  subst ht
  refine h.silent (by rw [hcall]; exact Kind.noConfusion) (by rw [hcall]; exact Kind.noConfusion) id
    rfl (fun id tx' htx' => ?_) h.dispatched_nodup fun call hdispatched => ?_
  · by_cases hid : id = txId
    · subst hid
      simp at htx'
    · simp only [Function.update_of_ne hid] at htx'
      exact ⟨tx', htx', .inl rfl⟩
  · refine h.executed_update (fun tx' htx' => ?_) call hdispatched
    rw [htx] at htx'
    cases htx'
    exact hopen

theorem Tracked.configured (h : Tracked past s) (hkind : i.call.kind = .configuration)
    (hnone : s.signers = none) (hsigners : t.signers ≠ none)
    (htransaction : t.transaction = s.transaction) (hdispatched : t.dispatched = s.dispatched) :
    Tracked (past ++ [⟨s, i, t⟩]) t := by
  have hproposal : i.call.kind ≠ .proposal := by
    rw [hkind]
    exact Kind.noConfusion
  have hsignature : i.call.kind ≠ .signature := by
    rw [hkind]
    exact Kind.noConfusion
  have hunborn : ∀ txId, s.transaction txId = none ∧ votes txId past = [] := by
    intro txId
    refine h.unborn txId fun n hn => ?_
    rw [h.blank hnone] at hn
    cases hn
  have hcreated : past.filterMap created = [] := by
    rw [List.eq_nil_iff_forall_not_mem]
    intro txId hmem
    obtain ⟨n, hn, _⟩ := h.created_lt txId hmem
    rw [h.blank hnone] at hn
    cases hn
  refine ⟨fun hnone' => absurd hnone' hsigners, fun txId _ => ?_, ?_, ?_, fun txId tx htx => ?_, ?_,
    ?_⟩
  · rw [htransaction, votes_concat, (hunborn txId).2,
      vote_eq_none (e := ⟨s, i, t⟩) hproposal hsignature]
    exact ⟨(hunborn txId).1, rfl⟩
  · rw [created_concat, hcreated, created_eq_none (e := ⟨s, i, t⟩) hproposal]
    intro txId hmem
    cases hmem
  · rw [created_concat, hcreated, created_eq_none (e := ⟨s, i, t⟩) hproposal]
    exact List.nodup_nil
  · rw [htransaction, (hunborn txId).1] at htx
    cases htx
  · rw [hdispatched]
    exact h.dispatched_nodup
  · rw [hdispatched, htransaction]
    exact h.executed

theorem Tracked.recorded_update {txId : ℕ} {new : Transaction} {e : Entry State Invocation}
    (h : Tracked past s) (ht : t.transaction = Function.update s.transaction txId (some new))
    (hother : ∀ id, id ≠ txId → vote id e = none) (hnew : Recorded (past ++ [e]) txId new) (id : ℕ)
    (tx : Transaction) (htx : t.transaction id = some tx) : Recorded (past ++ [e]) id tx := by
  rw [ht] at htx
  by_cases hid : id = txId
  · subst hid
    rw [Function.update_self] at htx
    cases htx
    exact hnew
  · rw [Function.update_of_ne hid] at htx
    exact (h.recorded id tx htx).concat (hother id hid)

theorem unborn_update {txId id : ℕ} {new : Transaction} {e : Entry State Invocation}
    (ht : t.transaction = Function.update s.transaction txId (some new)) (hid : id ≠ txId)
    (hother : ∀ id, id ≠ txId → vote id e = none)
    (h : s.transaction id = none ∧ votes id past = []) :
    t.transaction id = none ∧ votes id (past ++ [e]) = [] := by
  rw [ht]
  refine ⟨(Function.update_of_ne hid ..).trans h.1, ?_⟩
  rw [votes_concat, h.2, hother id hid]
  rfl

theorem Tracked.proposed {proposer target : Address} {function : String} {args : List Val}
    {expiryLedgers txId : ℕ} (h : Tracked past s)
    (hweight : signerWeightInternal s proposer ≤ u32Max)
    (hcall : i.call = .proposeTransaction proposer target function args expiryLedgers)
    (hsigners : s.signers ≠ none) (hid : s.nextTransactionId = some txId)
    (ht : t = { s with
      transaction := Function.update s.transaction txId (some
        { id := txId, proposer, target, function, args, signatures := [proposer],
          accumulatedWeight := signerWeightInternal s proposer, executed := false,
          expiryLedger := saturatingAddU32 i.sequence expiryLedgers,
          createdLedger := i.sequence, nonce := txId }),
      nextTransactionId := some (txId + 1) }) : Tracked (past ++ [⟨s, i, t⟩]) t := by
  have hunborn := h.unborn txId fun n hn => by
    rw [hid] at hn
    cases hn
    exact Nat.le_refl _
  have hcreated : created ⟨s, i, t⟩ = some txId := by
    rw [created, if_pos (by rw [hcall]; rfl)]
    exact hid
  have hother : ∀ id, id ≠ txId → vote id ⟨s, i, t⟩ = none := by
    intro id hne
    simp only [vote, hcall, hid, Option.some.injEq, Ne.symm hne, if_false]
  have hvote : vote txId ⟨s, i, t⟩ = some (proposer, signerWeightInternal s proposer) := by
    simp only [vote, hcall, hid, if_true]
  have hvotes : votes txId (past ++ [⟨s, i, t⟩]) =
      [(proposer, signerWeightInternal s proposer)] := by
    rw [votes_concat, hunborn.2, hvote]
    rfl
  refine ⟨fun hnone => ?_, fun id hle => ?_, fun id hmem => ?_, ?_, fun id tx htx => ?_, ?_, ?_⟩
  · rw [ht] at hnone
    exact absurd hnone hsigners
  · have hlt : txId < id := hle _ (by rw [ht])
    refine unborn_update (by rw [ht]) (by omega) hother (h.unborn id fun n hn => ?_)
    rw [hid] at hn
    cases hn
    omega
  · rw [created_concat, hcreated] at hmem
    refine ⟨txId + 1, by rw [ht], ?_⟩
    rcases List.mem_append.mp hmem with hmem | hmem
    · obtain ⟨n, hn, hlt⟩ := h.created_lt id hmem
      rw [hid] at hn
      cases hn
      omega
    · rw [List.mem_singleton.mp hmem]
      omega
  · rw [created_concat, hcreated, Option.toList_some, ← List.concat_eq_append]
    refine h.created_nodup.concat fun hmem => ?_
    obtain ⟨n, hn, hlt⟩ := h.created_lt txId hmem
    rw [hid] at hn
    cases hn
    omega
  · refine h.recorded_update (by rw [ht]) hother ⟨⟨⟨s, i, t⟩, by simp, hcreated,
      ⟨proposer, expiryLedgers, hcall, rfl⟩, rfl⟩, ?_, by simp, ?_⟩ id tx htx
    · rw [hvotes]
      rfl
    · rw [hvotes]
      simpa using hweight
  · rw [ht]
    exact h.dispatched_nodup
  · rw [ht]
    exact h.executed_update fun tx htx => by simp [hunborn.1] at htx

theorem Tracked.signed {signer : Address} {txId : ℕ} {tx : Transaction} (h : Tracked past s)
    (hcall : i.call = .signTransaction signer txId) (htx : s.transaction txId = some tx)
    (hopen : tx.executed = false) (hnew : signer ∉ tx.signatures)
    (ht : t = { s with
      transaction := Function.update s.transaction txId (some { tx with
        signatures := tx.signatures ++ [signer],
        accumulatedWeight :=
          saturatingAddU32 tx.accumulatedWeight (signerWeightInternal s signer) }) }) :
    Tracked (past ++ [⟨s, i, t⟩]) t := by
  have hcreated : created ⟨s, i, t⟩ = none := by
    refine created_eq_none ?_
    rw [hcall]
    exact Kind.noConfusion
  have hother : ∀ id, id ≠ txId → vote id ⟨s, i, t⟩ = none := by
    intro id hne
    simp only [vote, hcall, Ne.symm hne, if_false]
  have hvote : vote txId ⟨s, i, t⟩ = some (signer, signerWeightInternal s signer) := by
    simp only [vote, hcall, if_true]
  have hrec := h.recorded txId tx htx
  refine ⟨fun hnone => ?_, fun id hle => ?_, ?_, ?_, fun id tx' htx' => ?_, ?_, ?_⟩
  · rw [ht] at hnone ⊢
    exact h.blank hnone
  · have hunborn := h.unborn id (by rw [ht] at hle; exact hle)
    refine unborn_update (by rw [ht]) ?_ hother hunborn
    rintro rfl
    rw [htx] at hunborn
    cases hunborn.1
  · rw [created_concat, hcreated, Option.toList_none, List.append_nil, ht]
    exact h.created_lt
  · rw [created_concat, hcreated, Option.toList_none, List.append_nil]
    exact h.created_nodup
  · obtain ⟨creation, hmem, hcreates⟩ := hrec.origin
    have hupdate := h.recorded_update (t := t) (by rw [ht]) hother
    refine hupdate ⟨⟨creation, List.mem_append_left _ hmem, hcreates.created_eq, hcreates.call_eq,
      hcreates.ledger_eq⟩, ?_, ?_, ?_⟩ id tx' htx'
    · rw [votes_concat, hvote, List.map_append, ← hrec.signatures_eq]
      rfl
    · rw [← List.concat_eq_append]
      exact hrec.distinct.concat hnew
    · rw [votes_concat, hvote, Option.toList_some, List.map_append, List.sum_append,
        List.map_singleton, List.sum_singleton, hrec.weight_eq]
      show saturatingAddU32 _ _ = _
      unfold saturatingAddU32
      omega
  · rw [ht]
    exact h.dispatched_nodup
  · rw [ht]
    refine h.executed_update fun tx' htx' => ?_
    rw [htx] at htx'
    cases htx'
    exact hopen

end Steps

theorem exec_tracked {past : List (Entry State Invocation)} {i : Invocation} {s t : State}
    (hwallet : Wallet s) (hs : Tracked past s) (h : exec i s = .ok t) :
    Tracked (past ++ [⟨s, i, t⟩]) t := by
  cases exec_move h with
  | configured _ _ _ _ hkind hnone _ _ _ _ _ h =>
    exact hs.configured hkind hnone (by simp [h]) (by rw [h]) (by rw [h])
  | joined _ _ _ _ hcall _ _ _ _ _ h | left _ _ _ _ hcall _ _ _ _ _ _ _ h =>
    refine hs.reconfigured ?_ ?_ (by simp [h]) (by rw [h]) (by rw [h]) (by rw [h])
    all_goals
      rw [hcall]
      exact Kind.noConfusion
  | proposed proposer _ _ _ _ signers _ hcall hsigners _ _ hid h =>
    obtain ⟨weights, threshold, hconf⟩ := hwallet.configured hsigners
    refine hs.proposed ?_ hcall (by simp [hsigners]) hid h
    rw [hconf.weight_eq]
    exact (hconf.proper.getWeight proposer).2
  | signed _ _ _ _ hcall _ _ _ htx hopen _ _ hnew h => exact hs.signed hcall htx hopen hnew h
  | executed _ hkind h => exact hs.executes hkind h
  | cleaned _ _ hcall htx hopen h => exact hs.cleaned hcall htx hopen h
  | limited hkind h =>
    refine hs.reconfigured ?_ ?_ (by rw [h]; exact id) (by rw [h]) (by rw [h]) (by rw [h])
    all_goals
      rw [hkind]
      exact Kind.noConfusion

/-- The proposal is neither expired nor past the configured validity. -/
def Live (e : Entry State Invocation) (tx : Transaction) : Prop :=
  e.invocation.sequence ≤ tx.expiryLedger ∧ Fresh e.invocation.toContext tx e.before

theorem vote_accepted {i : Invocation} {s t : State} {txId weight : ℕ} {voter : Address}
    (h : exec i s = .ok t) (hvote : vote txId ⟨s, i, t⟩ = some (voter, weight)) :
    (∃ signers, s.signers = some signers ∧ voter ∈ signers) ∧
      (created ⟨s, i, t⟩ = some txId ∨
        ∃ tx, s.transaction txId = some tx ∧ Live ⟨s, i, t⟩ tx) := by
  have hkind : i.call.kind = .proposal ∨ i.call.kind = .signature := by
    by_contra hno
    rw [not_or] at hno
    rw [vote_eq_none hno.1 hno.2] at hvote
    cases hvote
  cases exec_move h with
  | proposed proposer _ _ _ _ signers id hcall hsigners hmem _ hid h =>
    simp only [vote, hcall] at hvote
    split at hvote
    · next hnext =>
      cases hvote
      refine ⟨⟨signers, hsigners, hmem⟩, .inl ?_⟩
      rw [created, if_pos (by rw [hcall]; rfl)]
      exact hnext
    · cases hvote
  | signed signer id signers tx hcall hsigners hmem _ htx _ hexpiry hfresh _ h =>
    simp only [vote, hcall] at hvote
    split at hvote
    · next hsame =>
      cases hvote
      subst hsame
      exact ⟨⟨signers, hsigners, hmem⟩, .inr ⟨tx, htx, hexpiry, hfresh⟩⟩
    · cases hvote
  | configured _ _ _ _ hother _ _ _ _ _ _ _ | executed _ hother _ | limited hother _ =>
    rw [hother] at hkind
    rcases hkind with hkind | hkind <;> cases hkind
  | joined _ _ _ _ hcall _ _ _ _ _ _ | left _ _ _ _ hcall _ _ _ _ _ _ _ _
    | cleaned _ _ hcall _ _ _ =>
    rw [hcall] at hkind
    rcases hkind with hkind | hkind <;> cases hkind

/-- What the stored proposals and the calls into targets say about a run. -/
structure Integrity (all : List (Entry State Invocation)) (s : State) : Prop where
  called_once : (s.dispatched.map Dispatch.txId).Nodup
  created_once : (all.filterMap created).Nodup
  called_as_proposed : ∀ call ∈ s.dispatched, ∃ e ∈ all, created e = some call.txId ∧
    ∃ proposer expiryLedgers, e.invocation.call =
      .proposeTransaction proposer call.target call.function call.args expiryLedgers
  recorded : ∀ txId tx, s.transaction txId = some tx → Recorded all txId tx
  voted : ∀ e ∈ all, ∀ txId voter weight, vote txId e = some (voter, weight) →
    (∃ signers, e.before.signers = some signers ∧ voter ∈ signers) ∧
      (created e = some txId ∨ ∃ tx, e.before.transaction txId = some tx ∧ Live e tx)
  executed : ∀ e ∈ all, ∃ calls, e.after.dispatched = e.before.dispatched ++ calls ∧
    ∀ call ∈ calls, ∃ tx, e.before.transaction call.txId = some tx ∧ Live e tx

/-- In every run, a proposal's target is called at most once and as proposed, its signatures
    and weight are the votes of the signers at the time, and no late vote or execution is
    accepted. -/
theorem proposal_integrity (is : List Invocation) :
    Integrity (history exec State.empty is) (run State.empty is) := by
  have htracked : Wallet (run State.empty is) ∧
      Tracked (history exec State.empty is) (run State.empty is) :=
    history_invariant_along (I := fun past s => Wallet s ∧ Tracked past s)
      (fun past s i t hs _ hexec => ⟨exec_wallet hs.1 hexec, exec_tracked hs.1 hs.2 hexec⟩)
      ⟨.inl rfl, tracked_empty⟩ (along_true exec State.empty is)
  have hstep : ∀ e ∈ history exec State.empty is, exec e.invocation e.before = .ok e.after :=
    fun e he => (history_mem (I := fun _ => True) (fun _ _ _ _ _ _ => trivial) trivial
      (along_true exec State.empty is) he).2.2
  obtain ⟨_, htracked⟩ := htracked
  refine ⟨htracked.dispatched_nodup, htracked.created_nodup, fun call hcall => ?_,
    htracked.recorded, fun e he txId voter weight hvote => vote_accepted (hstep e he) hvote,
    fun e he => ?_⟩
  · obtain ⟨tx, htx, _, heq⟩ := htracked.executed call hcall
    obtain ⟨e, he, hcreates⟩ := (htracked.recorded call.txId tx htx).origin
    obtain ⟨proposer, expiryLedgers, hproposal, _⟩ := hcreates.call_eq
    refine ⟨e, he, hcreates.created_eq, proposer, expiryLedgers, ?_⟩
    rw [hproposal, heq]
  · obtain ⟨calls, hcalls, hexecutable⟩ := exec_dispatched (hstep e he)
    refine ⟨calls, hcalls, fun call hcall => ?_⟩
    obtain ⟨tx, hexec⟩ := hexecutable call hcall
    exact ⟨tx, hexec.stored, hexec.alive, hexec.fresh⟩

end SorobanKit.Multisig
