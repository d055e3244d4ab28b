import SorobanKit.TokenConservation
import SorobanKit.TokenOffices

set_option autoImplicit false

/-!
# Signed permits are used once

An owner's nonce is the number of permits applied for that owner, so the applied nonces are
exactly the ones below it, in order. It only moves when a permit is applied, and a cancelled nonce is
never applied: a cancellation of the expected nonce is the last thing that happens to the owner's
permits. What else can fail is the life of the allowance, which is extended by the expiry ledger.
-/
namespace SorobanKit.Token
open HostInteger HostInvocation HostRuns

def Call.appliesPermit (owner : Address) : Call → Option ℕ
  | .approveWithSignature o _ _ nonce _ _ => if o = owner then some nonce else none
  | _ => none

/-- The nonces of the permits of `owner` that were applied, in order. -/
def appliedNonces (owner : Address) (past : List (Entry State Invocation)) : List ℕ :=
  past.filterMap fun e => e.invocation.call.appliesPermit owner

theorem appliedNonces_append (owner : Address) (past later : List (Entry State Invocation)) :
    appliedNonces owner (past ++ later) = appliedNonces owner past ++ appliedNonces owner later := by
  simp [appliedNonces]

theorem appliesPermit_eq_some {owner : Address} {call : Call} {nonce : ℕ}
    (h : call.appliesPermit owner = some nonce) : ∃ spender amount expiryLedger signature,
      call = .approveWithSignature owner spender amount nonce expiryLedger signature := by
  cases call <;> simp only [Call.appliesPermit, reduceCtorEq] at h
  case approveWithSignature o spender amount n expiryLedger signature =>
    split at h
    · next howner =>
      cases h
      subst howner
      exact ⟨spender, amount, expiryLedger, signature, rfl⟩
    · cases h

theorem appliesPermit_of_not_office {owner : Address} {call : Call} (h : call.isOffice = false) :
    call.appliesPermit owner = none := by
  cases call <;> first
    | rfl
    | simp [Call.isOffice] at h

/-- What the permit keys say about the history that wrote them. -/
structure PermitLog (past : List (Entry State Invocation)) (s : State) : Prop where
  applied : ∀ owner, appliedNonces owner past = List.range (permitNonce owner s)
  cancelled : ∀ e ∈ past, ∀ owner nonce, e.invocation.call = .cancelPermitNonce owner nonce →
    isPermitNonceCancelled owner nonce s

/-- A call that neither applies nor cancels a permit and keeps the permit keys. -/
theorem PermitLog.keep {past : List (Entry State Invocation)} {s t : State} {i : Invocation}
    (hs : PermitLog past s) (happlies : ∀ owner, i.call.appliesPermit owner = none)
    (hcancels : ∀ owner nonce, i.call ≠ .cancelPermitNonce owner nonce)
    (hnonce : t.permitNonce = s.permitNonce)
    (hcancelled : t.cancelledPermitNonce = s.cancelledPermitNonce) :
    PermitLog (past ++ [⟨s, i, t⟩]) t := by
  refine ⟨fun owner => ?_, fun e he owner nonce hcall => ?_⟩
  · have hnone : appliedNonces owner [(⟨s, i, t⟩ : Entry State Invocation)] = [] := by
      simp [appliedNonces, happlies owner]
    rw [appliedNonces_append, hnone, List.append_nil, hs.applied owner, permitNonce, permitNonce,
      hnonce]
  · rcases List.mem_append.mp he with he | he
    · rw [isPermitNonceCancelled, hcancelled]
      exact hs.cancelled e he owner nonce hcall
    · rw [List.mem_singleton.mp he] at hcall
      exact absurd hcall (hcancels owner nonce)

theorem permitLog_step {d : Deployment} {past : List (Entry State Invocation)} {s t : State}
    {i : Invocation} (hs : PermitLog past s) (h : exec d i s = .ok t) :
    PermitLog (past ++ [⟨s, i, t⟩]) t := by
  cases exec_officeMove h with
  | idle hcall h =>
    refine hs.keep (fun owner => appliesPermit_of_not_office hcall) ?_
      (congrArg Offices.permitNonce h) (congrArg Offices.cancelledPermitNonce h)
    intro owner nonce heq
    simp [heq, Call.isOffice] at hcall
  | opened _ _ _ _ _ hcall _ h | proposed _ _ hcall _ _ h | accepted _ hcall _ _ h
  | withdrawn _ hcall _ _ h | assigned _ _ hcall _ _ h | registered _ _ hcall _ h =>
    exact hs.keep (by simp [hcall, Call.appliesPermit]) (by simp [hcall])
      (congrArg Offices.permitNonce h) (congrArg Offices.cancelledPermitNonce h)
  | revoked owner nonce hcall _ h =>
    have hflags := congrArg Offices.cancelledPermitNonce h
    change t.cancelledPermitNonce =
      Function.update s.cancelledPermitNonce (owner, nonce) (some true) at hflags
    have hnonces : t.permitNonce = s.permitNonce := congrArg Offices.permitNonce h
    refine ⟨fun o => ?_, fun e he o n heq => ?_⟩
    · have hnone : appliedNonces o [(⟨s, i, t⟩ : Entry State Invocation)] = [] := by
        simp [appliedNonces, hcall, Call.appliesPermit]
      rw [appliedNonces_append, hnone, List.append_nil, hs.applied o, permitNonce, permitNonce,
        hnonces]
    · rw [isPermitNonceCancelled, hflags]
      by_cases hkey : (o, n) = (owner, nonce)
      · rw [hkey, Function.update_self]
        rfl
      · rw [Function.update_of_ne hkey]
        rcases List.mem_append.mp he with he | he
        · exact hs.cancelled e he o n heq
        · rw [List.mem_singleton.mp he, hcall] at heq
          cases heq
          exact absurd rfl hkey
  | permitted owner spender amount nonce expiryLedger signature publicKey hcall hledger hnonce hlive
      hkey hverify hallowance h =>
    have hnonces := congrArg Offices.permitNonce h
    change t.permitNonce = Function.update s.permitNonce owner (some (nonce + 1)) at hnonces
    have hflags : t.cancelledPermitNonce = s.cancelledPermitNonce :=
      congrArg Offices.cancelledPermitNonce h
    refine ⟨fun o => ?_, fun e he o n heq => ?_⟩
    · rw [appliedNonces_append, hs.applied o]
      by_cases howner : owner = o
      · subst howner
        have hone : appliedNonces owner [(⟨s, i, t⟩ : Entry State Invocation)] = [nonce] := by
          simp [appliedNonces, hcall, Call.appliesPermit]
        have hnext : permitNonce owner t = nonce + 1 := by simp [permitNonce, hnonces]
        rw [hone, hnext, List.range_succ, hnonce]
      · have hnone : appliedNonces o [(⟨s, i, t⟩ : Entry State Invocation)] = [] := by
          simp [appliedNonces, hcall, Call.appliesPermit, howner]
        have hsame : permitNonce o t = permitNonce o s := by
          simp [permitNonce, hnonces, Function.update_of_ne (Ne.symm howner)]
        rw [hnone, hsame, List.append_nil]
    · rcases List.mem_append.mp he with he | he
      · rw [isPermitNonceCancelled, hflags]
        exact hs.cancelled e he o n heq
      · rw [List.mem_singleton.mp he, hcall] at heq
        cases heq

theorem appliesPermit_sets {d : Deployment} {i : Invocation} {s t : State}
    (h : exec d i s = .ok t) {owner spender : Address} {amount : ℤ} {nonce expiryLedger : ℕ}
    {signature : Signature}
    (hcall : i.call = .approveWithSignature owner spender amount nonce expiryLedger signature) :
    isPermitNonceCancelled owner nonce s = false ∧ i.sequence ≤ expiryLedger ∧
      (∃ publicKey, s.permitSigner owner = some publicKey ∧ d.ed25519Verify publicKey
        ⟨d.contractAddress, owner, spender, amount, nonce, expiryLedger⟩ signature) ∧
      t.allowance = Function.update s.allowance (owner, spender) (some ⟨amount, expiryLedger⟩) := by
  cases exec_officeMove h with
  | permitted _ _ _ _ _ _ publicKey hcall' hledger hnonce hlive hkey hverify hallowance h =>
    rw [hcall] at hcall'
    cases hcall'
    exact ⟨hlive, hledger, ⟨publicKey, hkey, hverify⟩, hallowance⟩
  | idle hidle => simp [hcall, Call.isOffice] at hidle
  | opened _ _ _ _ _ hcall' | proposed _ _ hcall' | accepted _ hcall' | withdrawn _ hcall'
  | assigned _ _ hcall' | registered _ _ hcall' | revoked _ _ hcall' =>
    simp [hcall] at hcall'

/-- In every run the permits applied for an owner carry the nonces 0, 1, 2, ... in order, a
    cancelled nonce is not applied after its cancellation, and an applied permit sets exactly
    the allowance of the message that was verified, before it expires. -/
theorem permit_replay_protection (d : Deployment) (is : List Invocation) :
    (∀ owner, appliedNonces owner (history (exec d) State.empty is) =
      List.range (permitNonce owner (run d State.empty is))) ∧
    (∀ owner, (appliedNonces owner (history (exec d) State.empty is)).Nodup) ∧
    (∀ earlier e later, history (exec d) State.empty is = earlier ++ e :: later →
      ∀ owner nonce, e.invocation.call = .cancelPermitNonce owner nonce →
        nonce ∉ appliedNonces owner later) ∧
    (∀ earlier e later, history (exec d) State.empty is = earlier ++ e :: later →
      ∀ owner spender amount nonce expiryLedger signature,
        e.invocation.call =
          .approveWithSignature owner spender amount nonce expiryLedger signature →
        e.invocation.sequence ≤ expiryLedger ∧
        (∃ publicKey, e.before.permitSigner owner = some publicKey ∧ d.ed25519Verify publicKey
          ⟨d.contractAddress, owner, spender, amount, nonce, expiryLedger⟩ signature) ∧
        e.after.allowance =
          Function.update e.before.allowance (owner, spender) (some ⟨amount, expiryLedger⟩)) := by
  have hstart : PermitLog [] State.empty := ⟨fun owner => rfl, by simp⟩
  have hnext : ∀ past s i t, PermitLog past s → True → exec d i s = .ok t →
      PermitLog (past ++ [⟨s, i, t⟩]) t := fun past s i t hs _ hok => permitLog_step hs hok
  have htrue := along_true (exec d) State.empty is
  have hlog := history_invariant_along hnext hstart htrue
  refine ⟨hlog.applied, fun owner => ?_, ?_, ?_⟩
  · rw [hlog.applied owner]
    exact List.nodup_range
  · intro earlier e later hsplit owner nonce hcancel hmem
    obtain ⟨used, hused, happlies⟩ := List.mem_filterMap.mp hmem
    obtain ⟨spender, amount, expiryLedger, signature, hcall⟩ := appliesPermit_eq_some happlies
    obtain ⟨between, rest, rfl⟩ := List.append_of_mem hused
    rw [← List.cons_append, ← List.append_assoc] at hsplit
    obtain ⟨hbefore, _, hexec⟩ := history_split hnext hstart htrue hsplit
    have hflag := hbefore.cancelled e (by simp) owner nonce hcancel
    have hlive := (appliesPermit_sets hexec hcall).1
    rw [hlive] at hflag
    cases hflag
  · intro earlier e later hsplit owner spender amount nonce expiryLedger signature hcall
    obtain ⟨_, _, hexec⟩ := history_split hnext hstart htrue hsplit
    exact (appliesPermit_sets hexec hcall).2

/-- Some nonce with which a signed permit of `owner` goes through; `signature nonce` is what
    the owner signs for it. -/
def PermitAvailable (d : Deployment) (ctx : Context) (owner spender : Address) (amount : ℤ)
    (expiryLedger : ℕ) (signature : ℕ → Signature) (s : State) : Prop :=
  ∃ nonce t, approveWithSignature d ctx owner spender amount nonce expiryLedger (signature nonce) s =
    .ok t

/-- Every nonce marked as cancelled was cancelled by an accepted call. -/
def Cancellations (past : List (Entry State Invocation)) (s : State) : Prop :=
  ∀ owner nonce, isPermitNonceCancelled owner nonce s →
    ∃ e ∈ past, e.invocation.call = .cancelPermitNonce owner nonce

theorem Cancellations.keep {past : List (Entry State Invocation)} {s t : State}
    (hs : Cancellations past s) (hcancelled : t.cancelledPermitNonce = s.cancelledPermitNonce)
    (e : Entry State Invocation) : Cancellations (past ++ [e]) t := by
  intro owner nonce hflag
  rw [isPermitNonceCancelled, hcancelled] at hflag
  obtain ⟨old, hold, hcall⟩ := hs owner nonce hflag
  exact ⟨old, List.mem_append_left _ hold, hcall⟩

theorem cancellations_step {d : Deployment} {past : List (Entry State Invocation)} {s t : State}
    {i : Invocation} (hs : Cancellations past s) (h : exec d i s = .ok t) :
    Cancellations (past ++ [⟨s, i, t⟩]) t := by
  cases exec_officeMove h with
  | revoked owner nonce hcall _ h =>
    have hflags : t.cancelledPermitNonce =
        Function.update s.cancelledPermitNonce (owner, nonce) (some true) :=
      congrArg Offices.cancelledPermitNonce h
    intro o n hflag
    by_cases hkey : (o, n) = (owner, nonce)
    · cases hkey
      exact ⟨⟨s, i, t⟩, by simp, hcall⟩
    · rw [isPermitNonceCancelled, hflags, Function.update_of_ne hkey] at hflag
      obtain ⟨old, hold, hcall⟩ := hs o n hflag
      exact ⟨old, List.mem_append_left _ hold, hcall⟩
  | idle _ h | opened _ _ _ _ _ _ _ h | proposed _ _ _ _ _ h | accepted _ _ _ _ h
  | withdrawn _ _ _ _ h | assigned _ _ _ _ _ h | registered _ _ _ _ h
  | permitted _ _ _ _ _ _ _ _ _ _ _ _ _ _ h =>
    exact hs.keep (congrArg Offices.cancelledPermitNonce h) ⟨s, i, t⟩

theorem isPermitNonceCancelled_iff (d : Deployment) (is : List Invocation) (owner : Address)
    (nonce : ℕ) : isPermitNonceCancelled owner nonce (run d State.empty is) ↔
      ∃ e ∈ history (exec d) State.empty is, e.invocation.call = .cancelPermitNonce owner nonce := by
  have htrue := along_true (exec d) State.empty is
  have hlog := history_invariant_along (I := PermitLog)
    (fun past s i t hs (_ : True) hok => permitLog_step hs hok) ⟨fun _ => rfl, by simp⟩ htrue
  have hback := history_invariant_along (I := Cancellations)
    (fun past s i t hs (_ : True) hok => cancellations_step hs hok)
    (fun _ _ hflag => by cases hflag) htrue
  constructor
  · exact hback owner nonce
  · rintro ⟨e, he, hcall⟩
    exact hlog.cancelled e he owner nonce hcall

/-- An allowance until `expiryLedger` that the host lets live. -/
def Storable (d : Deployment) (ctx : Context) (expiryLedger : ℕ) : Prop :=
  ctx.sequence < expiryLedger → expiryLedger < d.maxEntryTtl ∧ ctx.sequence + expiryLedger ≤ u32Max

theorem permitAvailable_live {d : Deployment} {ctx : Context} {owner spender : Address} {amount : ℤ}
    {expiryLedger : ℕ} {signature : ℕ → Signature} {s : State}
    (h : PermitAvailable d ctx owner spender amount expiryLedger signature s) :
    isPermitNonceCancelled owner (permitNonce owner s) s = false ∧ Storable d ctx expiryLedger := by
  obtain ⟨nonce, t, h⟩ := h
  simp only [approveWithSignature, extendAllowance, bind_eq_ok, rejectIf_eq_ok, trapUnless_eq_ok,
    Decidable.not_not] at h
  obtain ⟨_, _, _, _, _, hnonce, _, hlive, _, _, _, _, _, _, _, hstorable, _⟩ := h
  rw [hnonce] at hlive
  exact ⟨by simpa using hlive, hstorable⟩

theorem permitAvailable_of_live {d : Deployment} {ctx : Context} {owner spender : Address}
    {amount : ℤ} {expiryLedger : ℕ} {signature : ℕ → Signature} {s : State} {publicKey : PublicKey}
    (hpaused : requireNotPaused d s = .ok ()) (hkey : s.permitSigner owner = some publicKey)
    (hnonce : permitNonce owner s < u32Max) (hexpiry : ctx.sequence ≤ expiryLedger)
    (hverify : ∀ nonce, d.ed25519Verify publicKey
      ⟨d.contractAddress, owner, spender, amount, nonce, expiryLedger⟩ (signature nonce))
    (hlive : isPermitNonceCancelled owner (permitNonce owner s) s = false)
    (hstorable : Storable d ctx expiryLedger) :
    PermitAvailable d ctx owner spender amount expiryLedger signature s := by
  have hnext : checkedAddU32 (permitNonce owner s) 1 = some (permitNonce owner s + 1) :=
    checkedAddU32_eq_some.mpr ⟨by omega, rfl⟩
  unfold PermitAvailable approveWithSignature extendAllowance
  simp only [bind_eq_ok, rejectIf_eq_ok, okOr_eq_ok, trapUnless_eq_ok, pure_eq_ok]
  exact ⟨permitNonce owner s, _, (), hpaused, (), by omega, (), by simp, (), by simp [hlive],
    publicKey, hkey, (), hverify _, _, hnext, (), hstorable, rfl⟩

theorem blocked_step {d : Deployment} {owner : Address} {s t : State} {i : Invocation}
    (hs : isPermitNonceCancelled owner (permitNonce owner s) s) (h : exec d i s = .ok t) :
    isPermitNonceCancelled owner (permitNonce owner t) t := by
  cases exec_officeMove h with
  | revoked o n _ _ h =>
    have hnonces : t.permitNonce = s.permitNonce := congrArg Offices.permitNonce h
    have hflags : t.cancelledPermitNonce =
        Function.update s.cancelledPermitNonce (o, n) (some true) :=
      congrArg Offices.cancelledPermitNonce h
    rw [isPermitNonceCancelled, hflags, permitNonce, hnonces]
    by_cases hkey : (owner, permitNonce owner s) = (o, n)
    · rw [← hkey, permitNonce, Function.update_self]
      rfl
    · rw [← permitNonce, Function.update_of_ne hkey]
      exact hs
  | permitted o _ _ n _ _ _ _ _ hnonce hlive _ _ _ h =>
    have hnonces : t.permitNonce = Function.update s.permitNonce o (some (n + 1)) :=
      congrArg Offices.permitNonce h
    have hflags : t.cancelledPermitNonce = s.cancelledPermitNonce :=
      congrArg Offices.cancelledPermitNonce h
    have hother : owner ≠ o := by
      rintro rfl
      rw [← hnonce, hlive] at hs
      cases hs
    rw [isPermitNonceCancelled, hflags, permitNonce, hnonces, Function.update_of_ne hother]
    exact hs
  | idle _ h | opened _ _ _ _ _ _ _ h | proposed _ _ _ _ _ h | accepted _ _ _ _ h
  | withdrawn _ _ _ _ h | assigned _ _ _ _ _ h | registered _ _ _ _ h =>
    have hnonces : t.permitNonce = s.permitNonce := congrArg Offices.permitNonce h
    have hflags : t.cancelledPermitNonce = s.cancelledPermitNonce :=
      congrArg Offices.cancelledPermitNonce h
    rw [isPermitNonceCancelled, hflags, permitNonce, hnonces]
    exact hs

theorem cancelled_blocks_forever (d : Deployment) {owner : Address} {s : State}
    (hs : isPermitNonceCancelled owner (permitNonce owner s) s) (later : List Invocation)
    (ctx : Context) (spender : Address) (amount : ℤ) (expiryLedger : ℕ)
    (signature : ℕ → Signature) : ¬ PermitAvailable d ctx owner spender amount expiryLedger signature
      (run d s later) := by
  intro havailable
  have hblocked : isPermitNonceCancelled owner (permitNonce owner (run d s later)) (run d s later) :=
    run_invariant (I := fun s => isPermitNonceCancelled owner (permitNonce owner s) s)
      (fun s i t hs (hok : exec d i s = .ok t) => blocked_step hs hok) hs later
  rw [(permitAvailable_live havailable).1] at hblocked
  cases hblocked

/-- In every reachable state that is not paused, an owner with a registered signer and a nonce
    below the largest one can have a permit applied exactly if that nonce was not cancelled and
    the host lets the allowance live. -/
theorem permit_available_iff (d : Deployment) (is : List Invocation) (ctx : Context)
    (owner spender : Address) (amount : ℤ) (expiryLedger : ℕ) (signature : ℕ → Signature)
    (publicKey : PublicKey)
    (hpaused : requireNotPaused d (run d State.empty is) = .ok ())
    (hkey : (run d State.empty is).permitSigner owner = some publicKey)
    (hnonce : permitNonce owner (run d State.empty is) < u32Max)
    (hexpiry : ctx.sequence ≤ expiryLedger)
    (hverify : ∀ nonce, d.ed25519Verify publicKey
      ⟨d.contractAddress, owner, spender, amount, nonce, expiryLedger⟩ (signature nonce)) :
    PermitAvailable d ctx owner spender amount expiryLedger signature (run d State.empty is) ↔
      (∀ e ∈ history (exec d) State.empty is,
        e.invocation.call ≠ .cancelPermitNonce owner (permitNonce owner (run d State.empty is))) ∧
      Storable d ctx expiryLedger := by
  have hflag := isPermitNonceCancelled_iff d is owner (permitNonce owner (run d State.empty is))
  constructor
  · intro havailable
    obtain ⟨hlive, hstorable⟩ := permitAvailable_live havailable
    refine ⟨fun e he hcall => ?_, hstorable⟩
    rw [hflag.mpr ⟨e, he, hcall⟩] at hlive
    cases hlive
  · rintro ⟨hnever, hstorable⟩
    refine permitAvailable_of_live hpaused hkey hnonce hexpiry hverify ?_ hstorable
    rw [← Bool.not_eq_true, hflag]
    rintro ⟨e, he, hcall⟩
    exact hnever e he hcall

/-- A deployment where key 1 signs a message with the message's nonce. -/
def demoSigning : Deployment :=
  { demoDeployment with
    ed25519Verify := fun publicKey message signature =>
      publicKey = 1 ∧ signature = BitVec.ofNat 512 message.nonce }

def demoRegister : Invocation :=
  { sequence := 2, auths := [demoAlice], call := .setPermitSigner demoAlice 1 }

def demoCancel (nonce : ℕ) : Invocation :=
  { sequence := 3, auths := [demoAlice], call := .cancelPermitNonce demoAlice nonce }

def demoSubmit : Context := { sequence := 4, auths := [] }

/-- Cancelling a later nonce leaves the expected one usable. -/
theorem permit_available_demo :
    PermitAvailable demoSigning demoSubmit demoAlice demoBob 10 9 (BitVec.ofNat 512)
      (run demoSigning State.empty [demoRegister, demoCancel 1]) := by
  have hnever : ∀ e ∈ history (exec demoSigning) State.empty [demoRegister, demoCancel 1],
      e.invocation.call ≠ .cancelPermitNonce demoAlice 0 := by
    intro e he hcall
    rcases List.mem_cons.mp he with rfl | he
    · cases hcall
    · rw [List.mem_singleton.mp he] at hcall
      cases hcall
  exact (permit_available_iff demoSigning [demoRegister, demoCancel 1] demoSubmit demoAlice demoBob
    10 9 (BitVec.ofNat 512) 1 rfl rfl (by decide) (by decide) (by simp [demoSigning])).mpr
    ⟨hnever, fun _ => by decide⟩

/-- After the owner's first nonce was cancelled no permit of this owner goes through, whatever
    is called in between. -/
theorem cancelled_nonce_blocks :
    requireNotPaused demoSigning
        (run demoSigning State.empty [demoRegister, demoCancel 0]) = .ok () ∧
      (run demoSigning State.empty [demoRegister, demoCancel 0]).permitSigner demoAlice = some 1 ∧
      permitNonce demoAlice (run demoSigning State.empty [demoRegister, demoCancel 0]) < u32Max ∧
      ∀ later ctx spender amount expiryLedger signature, ¬ PermitAvailable demoSigning ctx
        demoAlice spender amount expiryLedger signature
        (run demoSigning (run demoSigning State.empty [demoRegister, demoCancel 0]) later) := by
  refine ⟨rfl, rfl, by decide, ?_⟩
  intro later ctx spender amount expiryLedger signature
  exact cancelled_blocks_forever demoSigning rfl later ctx spender amount expiryLedger signature

end SorobanKit.Token
