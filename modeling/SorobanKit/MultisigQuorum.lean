import SorobanKit.MultisigSigners

set_option autoImplicit false

/-!
# The quorum behind an execution

`execute_phase` compares the weight that a proposal collected while it was signed with the
threshold. The weight still belongs to signers of the wallet if nobody leaves it who has
signed an open proposal; `remove_signer` does not look at the proposals.
-/
namespace SorobanKit.Multisig
open HostInteger HostInvocation HostRuns

/-- The current signers that signed proposal `txId` reach, by their current weights, the
    current threshold. -/
def Quorum (s : State) (txId : ℕ) : Prop :=
  ∃ tx signers threshold, s.transaction txId = some tx ∧ s.signers = some signers ∧
    s.threshold = some threshold ∧
    threshold ≤ ((signers.filter (· ∈ tx.signatures)).map (signerWeightInternal s)).sum

/-- No signer is removed whose signature is on a proposal that can still be executed. -/
def NoOpenSignature (s : State) (i : Invocation) : Prop :=
  ∀ approvals signer newThreshold, i.call = .removeSigner approvals signer newThreshold →
    ∀ txId tx, s.transaction txId = some tx → tx.executed = false → signer ∉ tx.signatures

structure Backed (s : State) (tx : Transaction) : Prop where
  signed : tx.signatures ≠ []
  distinct : tx.signatures.Nodup
  members : ∀ a ∈ tx.signatures, ∃ signers, s.signers = some signers ∧ a ∈ signers
  weight : tx.accumulatedWeight ≤ (tx.signatures.map (signerWeightInternal s)).sum

def OpenBacked (s : State) : Prop :=
  ∀ txId tx, s.transaction txId = some tx → tx.executed = false → Backed s tx

/-- The signers of the proposal may be joined or left by others. -/
theorem Backed.mono {s t : State} {tx : Transaction} (h : Backed s tx)
    (hmembers : ∀ a ∈ tx.signatures, ∀ signers, s.signers = some signers → a ∈ signers →
      ∃ signers', t.signers = some signers' ∧ a ∈ signers')
    (hweight : ∀ a ∈ tx.signatures, signerWeightInternal t a = signerWeightInternal s a) :
    Backed t tx := by
  refine ⟨h.signed, h.distinct, fun a ha => ?_, ?_⟩
  · obtain ⟨signers, hsigners, hmem⟩ := h.members a ha
    exact hmembers a ha signers hsigners hmem
  · rw [List.map_congr_left hweight]
    exact h.weight

theorem Backed.congr {s t : State} {tx : Transaction} (h : Backed s tx)
    (hsigners : t.signers = s.signers) (hweights : t.weights = s.weights) : Backed t tx := by
  refine h.mono (fun a _ signers hs hmem => ⟨signers, hsigners.trans hs, hmem⟩) fun a _ => ?_
  unfold signerWeightInternal
  rw [hweights]

theorem OpenBacked.update {s t : State} (h : OpenBacked s) (hsigners : t.signers = s.signers)
    (hweights : t.weights = s.weights) {txId : ℕ} {entry : Option Transaction}
    (htransaction : t.transaction = Function.update s.transaction txId entry)
    (hentry : ∀ tx, entry = some tx → Backed s tx) : OpenBacked t := by
  intro id tx htx hopen
  rw [htransaction] at htx
  refine Backed.congr ?_ hsigners hweights
  by_cases hid : id = txId
  · subst hid
    rw [Function.update_self] at htx
    exact hentry tx htx
  · rw [Function.update_of_ne hid] at htx
    exact h id tx htx hopen

theorem signerWeightInternal_update {s t : State} {signer a : Address} {entry : Option ℕ}
    (hweights : t.weights =
      some (Function.update (s.weights.getD fun _ => none) signer entry)) (ha : a ≠ signer) :
    signerWeightInternal t a = signerWeightInternal s a := by
  unfold signerWeightInternal
  rw [hweights]
  unfold getWeight
  simp only [Function.update_of_ne ha]
  cases s.weights <;> rfl

section Steps
variable {s t : State} {i : Invocation}

theorem OpenBacked.joined (hs : OpenBacked s) {signer : Address} {signers : List Address}
    {newThreshold : ℕ} (hsigners : s.signers = some signers) (hnew : signer ∉ signers) :
    OpenBacked { s with
      signers := some (signers ++ [signer]),
      weights := some (Function.update (s.weights.getD fun _ => none) signer (some 1)),
      threshold := some newThreshold } := by
  intro txId tx htx hopen
  have hbacked := hs txId tx htx hopen
  refine hbacked.mono (fun a _ current hcurrent hmem => ?_) fun a ha => ?_
  · rw [hsigners] at hcurrent
    cases hcurrent
    exact ⟨_, rfl, List.mem_append_left _ hmem⟩
  · refine signerWeightInternal_update rfl ?_
    rintro rfl
    obtain ⟨current, hcurrent, hmem⟩ := hbacked.members a ha
    rw [hsigners] at hcurrent
    cases hcurrent
    exact hnew hmem

/-- Nobody leaves whose signature counts. -/
theorem OpenBacked.left (hs : OpenBacked s) {signer : Address} {signers : List Address}
    {newThreshold : ℕ} (hsigners : s.signers = some signers)
    (hfree : ∀ txId tx, s.transaction txId = some tx → tx.executed = false →
      signer ∉ tx.signatures) :
    OpenBacked { s with
      signers := some (signers.filter (fun existing => existing ≠ signer)),
      weights := some (Function.update (s.weights.getD fun _ => none) signer none),
      threshold := some newThreshold } := by
  intro txId tx htx hopen
  have hother : ∀ a ∈ tx.signatures, a ≠ signer := by
    rintro a ha rfl
    exact hfree txId tx htx hopen ha
  refine (hs txId tx htx hopen).mono (fun a ha current hcurrent hmem => ?_) fun a ha =>
    signerWeightInternal_update rfl (hother a ha)
  rw [hsigners] at hcurrent
  cases hcurrent
  exact ⟨_, rfl, List.mem_filter.mpr ⟨hmem, by simpa using hother a ha⟩⟩

theorem Backed.signedBy {tx : Transaction} (h : Backed s tx) {signer : Address}
    {signers : List Address} (hsigners : s.signers = some signers) (hmem : signer ∈ signers)
    (hnew : signer ∉ tx.signatures) :
    Backed s { tx with
      signatures := tx.signatures ++ [signer],
      accumulatedWeight :=
        saturatingAddU32 tx.accumulatedWeight (signerWeightInternal s signer) } := by
  refine ⟨by simp, ?_, fun a ha => ?_, ?_⟩
  · rw [← List.concat_eq_append]
    exact h.distinct.concat hnew
  · rcases List.mem_append.mp ha with ha | ha
    · exact h.members a ha
    · rw [List.mem_singleton.mp ha]
      exact ⟨signers, hsigners, hmem⟩
  · have hle := h.weight
    simp only [List.map_append, List.sum_append, List.map_singleton, List.sum_singleton]
    unfold saturatingAddU32
    omega

theorem exec_openBacked (hs : OpenBacked s) (hi : NoOpenSignature s i) (h : exec i s = .ok t) :
    OpenBacked t := by
  cases exec_move h with
  | configured _ _ _ _ _ hnone _ _ _ _ _ h =>
    -- before initialization there is nobody who could have signed
    intro txId tx htx hopen
    subst h
    have hbacked := hs txId tx htx hopen
    obtain ⟨a, ha⟩ := List.exists_mem_of_ne_nil _ hbacked.signed
    obtain ⟨signers, hsigners, _⟩ := hbacked.members a ha
    rw [hnone] at hsigners
    cases hsigners
  | joined _ signer _ signers _ _ hsigners hnew _ _ h =>
    subst h
    exact hs.joined hsigners hnew
  | left approvals signer newThreshold signers hcall _ hsigners _ _ _ _ _ h =>
    subst h
    exact hs.left hsigners (hi approvals signer newThreshold hcall)
  | proposed proposer _ _ _ _ signers txId _ hsigners hmem _ _ h =>
    subst h
    refine hs.update rfl rfl rfl fun tx htx => ?_
    cases htx
    refine ⟨by simp, by simp, fun a ha => ?_, by simp⟩
    rw [List.mem_singleton.mp ha]
    exact ⟨signers, hsigners, hmem⟩
  | signed signer txId signers tx _ hsigners hmem _ htx hopen _ _ hnew h =>
    subst h
    refine hs.update rfl rfl rfl fun tx' htx' => ?_
    cases htx'
    exact (hs txId tx htx hopen).signedBy hsigners hmem hnew
  | executed calls _ h =>
    intro txId tx htx hopen
    rw [h.effect] at htx
    have hbacked := hs txId tx (markExecuted_open htx hopen) hopen
    rw [h.effect]
    exact hbacked.congr rfl rfl
  | cleaned txId _ _ _ _ h =>
    subst h
    refine hs.update rfl rfl rfl fun tx htx => ?_
    cases htx
  | limited _ h =>
    intro txId tx htx hopen
    rw [h] at htx ⊢
    exact (hs txId tx htx hopen).congr rfl rfl

end Steps

/-- The signers of a backed proposal are the current signers that signed it. -/
theorem Backed.quorum {s : State} {tx : Transaction} {signers : List Address} {threshold txId : ℕ}
    (h : Backed s tx) (htx : s.transaction txId = some tx) (hsigners : s.signers = some signers)
    (hnodup : signers.Nodup) (hthreshold : s.threshold = some threshold)
    (hle : threshold ≤ tx.accumulatedWeight) : Quorum s txId := by
  refine ⟨tx, signers, threshold, htx, hsigners, hthreshold, ?_⟩
  have hperm : (signers.filter (· ∈ tx.signatures)).Perm tx.signatures := by
    rw [List.perm_ext_iff_of_nodup (hnodup.filter _) h.distinct]
    intro a
    rw [List.mem_filter, decide_eq_true_eq]
    refine ⟨fun ha => ha.2, fun ha => ⟨?_, ha⟩⟩
    obtain ⟨current, hcurrent, hmem⟩ := h.members a ha
    rw [hsigners] at hcurrent
    cases hcurrent
    exact hmem
  rw [(hperm.map _).sum_eq]
  exact hle.trans h.weight

theorem executed_quorum {i : Invocation} {s t : State} (hwallet : Wallet s) (hs : OpenBacked s)
    (h : exec i s = .ok t) :
    ∃ calls, t.dispatched = s.dispatched ++ calls ∧ ∀ call ∈ calls, Quorum s call.txId := by
  obtain ⟨calls, hcalls, hexecutable⟩ := exec_dispatched h
  refine ⟨calls, hcalls, fun call hcall => ?_⟩
  obtain ⟨tx, hexec⟩ := hexecutable call hcall
  obtain ⟨threshold, hthreshold, hle⟩ := hexec.reached
  have hbacked := hs call.txId tx hexec.stored hexec.pending
  obtain ⟨a, ha⟩ := List.exists_mem_of_ne_nil _ hbacked.signed
  obtain ⟨signers, hsigners, _⟩ := hbacked.members a ha
  obtain ⟨weights, _, hconf⟩ := hwallet.configured hsigners
  exact hbacked.quorum hexec.stored hsigners hconf.distinct hthreshold hle

/-- Whenever proposals are executed, the current signers that signed them have the
    threshold among them, if no signer ever leaves open signatures behind. -/
theorem execution_quorum (is : List Invocation) (h : Along exec NoOpenSignature State.empty is)
    (e : Entry State Invocation) (he : e ∈ history exec State.empty is) :
    ∃ calls, e.after.dispatched = e.before.dispatched ++ calls ∧
      ∀ call ∈ calls, Quorum e.before call.txId := by
  have hstart : Wallet State.empty ∧ OpenBacked State.empty :=
    ⟨.inl rfl, fun _ _ htx _ => by cases htx⟩
  obtain ⟨⟨hwallet, hbacked⟩, _, hexec⟩ := history_mem
    (fun s i t (hs : Wallet s ∧ OpenBacked s) hi hok =>
      ⟨exec_wallet hs.1 hok, exec_openBacked hs.2 hi hok⟩) hstart h he
  exact executed_quorum hwallet hbacked hexec

def demoProposal : Invocation := ⟨demoEnv, .proposeTransaction ⟨1⟩ ⟨9⟩ "pay" [] 100⟩

def demoSignature : Invocation := ⟨demoEnv, .signTransaction ⟨2⟩ 0⟩

def demoExecution : Invocation := ⟨demoEnv, .executeTransaction 0⟩

theorem execution_quorum_demo : Quorum (run State.empty [demoSetup, demoProposal, demoSignature]) 0 := by
  have h : Along exec NoOpenSignature State.empty
      [demoSetup, demoProposal, demoSignature, demoExecution] := by
    refine ⟨?_, ?_, ?_, ?_, trivial⟩ <;> intro _ _ _ hcall <;> cases hcall
  obtain ⟨calls, hcalls, hquorum⟩ := execution_quorum
    [demoSetup, demoProposal, demoSignature, demoExecution] h
    ⟨run State.empty [demoSetup, demoProposal, demoSignature], demoExecution,
      run State.empty [demoSetup, demoProposal, demoSignature, demoExecution]⟩
    (List.mem_of_getElem? (i := 3) rfl)
  have hlist : [⟨0, ⟨9⟩, "pay", []⟩] = calls := hcalls
  exact hquorum ⟨0, ⟨9⟩, "pay", []⟩ (by simp [← hlist])

def demoRemoval : Invocation := ⟨demoEnv, .removeSigner demoOwners ⟨2⟩ 2⟩

/-- Two of three signers sign, one of them is removed, and the proposal is executed with
    the signature of one current signer against a threshold of 2. -/
theorem removed_signature_counts :
    ∃ e ∈ history exec State.empty
        [demoSetup, demoProposal, demoSignature, demoRemoval, demoExecution],
      e.after.dispatched = e.before.dispatched ++ [⟨0, ⟨9⟩, "pay", []⟩] ∧ ¬ Quorum e.before 0 := by
  refine ⟨⟨run State.empty [demoSetup, demoProposal, demoSignature, demoRemoval], demoExecution,
      run State.empty [demoSetup, demoProposal, demoSignature, demoRemoval, demoExecution]⟩,
    List.mem_of_getElem? (i := 4) rfl, rfl, ?_⟩
  rintro ⟨tx, signers, threshold, htx, hsigners, hthreshold, hle⟩
  cases htx
  cases hsigners
  cases hthreshold
  exact absurd hle (by decide)

end SorobanKit.Multisig
