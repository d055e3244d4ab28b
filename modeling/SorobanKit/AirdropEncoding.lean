import SorobanKit.AirdropContract
import SorobanKit.HostBytes

set_option autoImplicit false

/-!
# What the airdrop hashes and what recipients sign

The preimage of a leaf and the payload of a sponsored claim are fields written one after the other.
Each can be read back field by field, whatever the host makes of addresses, as long as no address is
the beginning of another one. So the model of the claims can take leaves and payloads as records.
-/
namespace SorobanKit.Airdrop
open HostBytes HostInteger HostInvocation Merkle

def bytesN (x : Node) : List UInt8 := beBytes 32 x.toNat

/-- Two's complement. -/
def i128ToBeBytes (x : I128) : List UInt8 := beBytes 16 (x.1 % 2 ^ 128).toNat

def u32ToBeBytes (x : BitVec 32) : List UInt8 := beBytes 4 x.toNat

theorem bytesN_selfDelimiting : SelfDelimiting bytesN := by
  apply SelfDelimiting.of_length (n := 32)
  · intro x y h
    apply BitVec.eq_of_toNat_eq
    exact beBytes_inj x.isLt y.isLt h
  · exact fun x => beBytes_length 32 x.toNat

theorem u32ToBeBytes_selfDelimiting : SelfDelimiting u32ToBeBytes := by
  apply SelfDelimiting.of_length (n := 4)
  · intro x y h
    apply BitVec.eq_of_toNat_eq
    exact beBytes_inj x.isLt y.isLt h
  · exact fun x => beBytes_length 4 x.toNat

theorem i128ToBeBytes_selfDelimiting : SelfDelimiting i128ToBeBytes := by
  apply SelfDelimiting.of_length (n := 16)
  · intro x y h
    have hx := x.2
    have hy := y.2
    unfold InI128 at hx hy
    have hsame : (x.1 % 2 ^ 128).toNat = (y.1 % 2 ^ 128).toNat := by
      apply beBytes_inj _ _ h
      all_goals omega
    apply Subtype.ext
    omega
  · exact fun x => beBytes_length 16 _

section Preimages
variable {α : Type} (toXdr : α → List UInt8)

/-- The network and the contract that are hashed in. -/
structure Instance (α : Type) where
  networkId : Node
  currentContract : α

def leafDomain : List UInt8 := ascii "SOROBAN_AIRDROP_LEAF_V1"

def claimForDomain : List UInt8 := ascii "soroban-airdrop:claim_for:v1"

def leafPreimage (env : Instance α) (recipient token : α) (amount : I128) : List UInt8 :=
  leafDomain ++ (bytesN env.networkId ++ (toXdr env.currentContract ++
    (toXdr recipient ++ (toXdr token ++ i128ToBeBytes amount))))

def computeLeaf (sha256 : List UInt8 → Node) (env : Instance α) (recipient token : α)
    (amount : I128) : Node :=
  sha256 (leafPreimage toXdr env recipient token amount)

def claimForPayload (env : Instance α) (roundId : BitVec 32) (recipient : α) (amount : I128) :
    List UInt8 :=
  claimForDomain ++ (bytesN env.networkId ++ (toXdr env.currentContract ++
    (u32ToBeBytes roundId ++ (toXdr recipient ++ i128ToBeBytes amount))))

end Preimages

/-- What `hash_pair_sorted` hashes. -/
def pairPreimage (a b : Node) : List UInt8 :=
  beBytes 64 (if a ≤ b then a ++ b else b ++ a).toNat

theorem hashPairSorted_eq (sha256 : List UInt8 → Node) (a b : Node) :
    hashPairSorted (fun x => sha256 (beBytes 64 x.toNat)) a b = sha256 (pairPreimage a b) := by
  unfold hashPairSorted pairPreimage
  by_cases hab : a ≤ b
  · simp only [hab, if_true]
  · simp only [hab, if_false]

theorem pairPreimage_length (a b : Node) : (pairPreimage a b).length = 64 := by
  unfold pairPreimage
  rw [beBytes_length]

section Unambiguous
variable {α : Type} {toXdr : α → List UInt8}

theorem leafPreimage_length (env : Instance α) (recipient token : α) (amount : I128) :
    (leafPreimage toXdr env recipient token amount).length = 71 +
      ((toXdr env.currentContract).length + (toXdr recipient).length + (toXdr token).length) := by
  have hdomain : leafDomain.length = 23 := by decide
  have hnetwork : (bytesN env.networkId).length = 32 := beBytes_length 32 _
  have hamount : (i128ToBeBytes amount).length = 16 := beBytes_length 16 _
  unfold leafPreimage
  simp only [List.length_append]
  omega

theorem leafPreimage_length_ne (env : Instance α) (recipient token : α) (amount : I128) :
    (leafPreimage toXdr env recipient token amount).length ≠ 64 := by
  rw [leafPreimage_length]
  omega

theorem leafPreimage_ne_pairPreimage (env : Instance α) (recipient token : α) (amount : I128)
    (a b : Node) : leafPreimage toXdr env recipient token amount ≠ pairPreimage a b := by
  intro heq
  apply leafPreimage_length_ne env recipient token amount
  rw [heq]
  exact pairPreimage_length a b

theorem computeLeaf_hashPairSorted {sha256 : List UInt8 → Node} {env : Instance α}
    {recipient token : α} {amount : I128} {a b : Node}
    (h : computeLeaf toXdr sha256 env recipient token amount =
      hashPairSorted (fun x => sha256 (beBytes 64 x.toNat)) a b) :
    leafPreimage toXdr env recipient token amount ≠ pairPreimage a b ∧
      sha256 (leafPreimage toXdr env recipient token amount) = sha256 (pairPreimage a b) := by
  refine ⟨leafPreimage_ne_pairPreimage env recipient token amount a b, ?_⟩
  rw [← hashPairSorted_eq sha256]
  exact h

theorem leafPreimage_inj (hxdr : SelfDelimiting toXdr) {env env' : Instance α}
    {recipient recipient' token token' : α} {amount amount' : I128}
    (h : leafPreimage toXdr env recipient token amount =
      leafPreimage toXdr env' recipient' token' amount') :
    env = env' ∧ recipient = recipient' ∧ token = token' ∧ amount = amount' := by
  have hfields := List.append_cancel_left h
  obtain ⟨hnetwork, hfields⟩ := bytesN_selfDelimiting _ _ _ _ hfields
  obtain ⟨hcontract, hfields⟩ := hxdr _ _ _ _ hfields
  obtain ⟨hrecipient, hfields⟩ := hxdr _ _ _ _ hfields
  obtain ⟨htoken, hamount⟩ := hxdr _ _ _ _ hfields
  cases env
  cases env'
  dsimp only at hnetwork hcontract
  rw [hnetwork, hcontract]
  exact ⟨rfl, hrecipient, htoken, i128ToBeBytes_selfDelimiting.injective hamount⟩

theorem claimForPayload_inj (hxdr : SelfDelimiting toXdr) {env env' : Instance α}
    {roundId roundId' : BitVec 32} {recipient recipient' : α} {amount amount' : I128}
    (h : claimForPayload toXdr env roundId recipient amount =
      claimForPayload toXdr env' roundId' recipient' amount') :
    env = env' ∧ roundId = roundId' ∧ recipient = recipient' ∧ amount = amount' := by
  have hfields := List.append_cancel_left h
  obtain ⟨hnetwork, hfields⟩ := bytesN_selfDelimiting _ _ _ _ hfields
  obtain ⟨hcontract, hfields⟩ := hxdr _ _ _ _ hfields
  obtain ⟨hround, hfields⟩ := u32ToBeBytes_selfDelimiting _ _ _ _ hfields
  obtain ⟨hrecipient, hamount⟩ := hxdr _ _ _ _ hfields
  cases env
  cases env'
  dsimp only at hnetwork hcontract
  rw [hnetwork, hcontract]
  exact ⟨rfl, hround, hrecipient, i128ToBeBytes_selfDelimiting.injective hamount⟩

theorem leafPreimage_ne_payload (env env' : Instance α) (recipient token recipient' : α)
    (amount amount' : I128) (roundId : BitVec 32) :
    leafPreimage toXdr env recipient token amount ≠
      claimForPayload toXdr env' roundId recipient' amount' := by
  intro h
  have hhead := congrArg List.head? h
  have hleaf : (leafPreimage toXdr env recipient token amount).head? = some 83 := rfl
  have hpayload : (claimForPayload toXdr env' roundId recipient' amount').head? = some 115 := rfl
  rw [hleaf, hpayload] at hhead
  exact absurd (Option.some.inj hhead) (by decide)

end Unambiguous

/-- A leaf preimage determines its fields and is never as long as the preimage of an inner node, a
    payload determines its fields, and no preimage of a leaf is a payload. -/
theorem encodings_unambiguous (α : Type) (toXdr : α → List UInt8)
    (hinj : Function.Injective toXdr) (hfront : PrefixFree toXdr) :
    (∀ (env env' : Instance α) (recipient recipient' token token' : α) (amount amount' : I128),
      leafPreimage toXdr env recipient token amount =
        leafPreimage toXdr env' recipient' token' amount' →
      env.networkId = env'.networkId ∧ env.currentContract = env'.currentContract ∧
        recipient = recipient' ∧ token = token' ∧ amount = amount') ∧
    (∀ (env : Instance α) (recipient token : α) (amount : I128),
      (leafPreimage toXdr env recipient token amount).length ≠ 64 ∧
        ∀ a b, leafPreimage toXdr env recipient token amount ≠ pairPreimage a b) ∧
    (∀ (env env' : Instance α) (roundId roundId' : BitVec 32) (recipient recipient' : α)
        (amount amount' : I128),
      claimForPayload toXdr env roundId recipient amount =
        claimForPayload toXdr env' roundId' recipient' amount' →
      env.networkId = env'.networkId ∧ env.currentContract = env'.currentContract ∧
        roundId = roundId' ∧ recipient = recipient' ∧ amount = amount') ∧
    ∀ (env env' : Instance α) (recipient token recipient' : α) (amount amount' : I128)
        (roundId : BitVec 32),
      leafPreimage toXdr env recipient token amount ≠
        claimForPayload toXdr env' roundId recipient' amount' := by
  have hxdr := SelfDelimiting.of_prefixFree hinj hfront
  refine ⟨?_, ?_, ?_, leafPreimage_ne_payload⟩
  · intro env env' recipient recipient' token token' amount amount' h
    obtain ⟨rfl, hrest⟩ := leafPreimage_inj hxdr h
    exact ⟨rfl, rfl, hrest⟩
  · intro env recipient token amount
    exact ⟨leafPreimage_length_ne env recipient token amount,
      leafPreimage_ne_pairPreimage env recipient token amount⟩
  · intro env env' roundId roundId' recipient recipient' amount amount' h
    obtain ⟨rfl, hrest⟩ := claimForPayload_inj hxdr h
    exact ⟨rfl, rfl, hrest⟩

inductive ScAddress where
  | account (publicKey : Node)
  | contract (hash : Node)
  deriving DecidableEq

def accountEd25519XdrPrefix : List UInt8 := [0, 0, 0, 18, 0, 0, 0, 0, 0, 0, 0, 0]

/-- The XDR of an address as a contract value. -/
def ScAddress.toXdr : ScAddress → List UInt8
  | .account publicKey => accountEd25519XdrPrefix ++ bytesN publicKey
  | .contract hash => [0, 0, 0, 18, 0, 0, 0, 1] ++ bytesN hash

def accountPublicKey {α : Type} (toXdr : α → List UInt8) (address : α) :
    Result AirdropError (List UInt8) := do
  let xdr := toXdr address
  rejectIf (xdr.length ≠ 44 ∨ xdr.take 12 ≠ accountEd25519XdrPrefix) .invalidSignature
  let key := xdr.drop 12
  rejectIf (key.length ≠ 32) .invalidSignature
  return key

theorem ScAddress.toXdr_selfDelimiting : SelfDelimiting ScAddress.toXdr := by
  intro a b x y h
  cases a with
  | account key =>
    cases b with
    | account key' =>
      rw [ScAddress.toXdr, ScAddress.toXdr, List.append_assoc, List.append_assoc] at h
      obtain ⟨rfl, hrest⟩ := bytesN_selfDelimiting _ _ _ _ (List.append_cancel_left h)
      exact ⟨rfl, hrest⟩
    | contract hash =>
      have hkind := congrArg (fun bytes => bytes[7]?) h
      cases hkind
  | contract hash =>
    cases b with
    | account key =>
      have hkind := congrArg (fun bytes => bytes[7]?) h
      cases hkind
    | contract hash' =>
      rw [ScAddress.toXdr, ScAddress.toXdr, List.append_assoc, List.append_assoc] at h
      obtain ⟨rfl, hrest⟩ := bytesN_selfDelimiting _ _ _ _ (List.append_cancel_left h)
      exact ⟨rfl, hrest⟩

theorem accountPublicKey_eq_ok (address : ScAddress) (key : List UInt8) :
    accountPublicKey ScAddress.toXdr address = .ok key ↔
      ∃ publicKey, address = .account publicKey ∧ key = bytesN publicKey := by
  simp only [accountPublicKey, bind_eq_ok, rejectIf_eq_ok, pure_eq_ok, not_or, not_not]
  cases address with
  | account publicKey =>
    have hlength : (bytesN publicKey).length = 32 := beBytes_length 32 _
    have htake : (ScAddress.account publicKey).toXdr.take 12 = accountEd25519XdrPrefix :=
      List.take_left' rfl
    have hdrop : (ScAddress.account publicKey).toXdr.drop 12 = bytesN publicKey :=
      List.drop_left' rfl
    have hxdr : (ScAddress.account publicKey).toXdr.length = 44 := by
      rw [ScAddress.toXdr, List.length_append, hlength]
      rfl
    simp [hlength, htake, hdrop, hxdr, eq_comm]
  | contract hash =>
    have hlength : (bytesN hash).length = 32 := beBytes_length 32 _
    have hxdr : (ScAddress.contract hash).toXdr.length = 40 := by
      rw [ScAddress.toXdr, List.length_append, hlength]
      rfl
    simp [hxdr]

/-- For the addresses of the network. -/
theorem encodings_unambiguous_demo :
    leafPreimage ScAddress.toXdr ⟨7, .contract 1⟩ (.account 2) (.contract 3) ⟨500, by decide⟩ ≠
      leafPreimage ScAddress.toXdr ⟨7, .contract 1⟩ (.contract 2) (.account 3) ⟨500, by decide⟩ := by
  intro h
  have hfields := (encodings_unambiguous ScAddress ScAddress.toXdr
    ScAddress.toXdr_selfDelimiting.injective ScAddress.toXdr_selfDelimiting.prefixFree).1
    _ _ _ _ _ _ _ _ h
  cases hfields.2.2.1

end SorobanKit.Airdrop
