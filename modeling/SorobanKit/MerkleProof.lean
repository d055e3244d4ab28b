import Mathlib.Data.BitVec
import SorobanKit.HostHashQueue
import SorobanKit.HostInteger

set_option autoImplicit false

/-!
# Merkle proofs over sorted pairs

The verifier of single proofs hashes a leaf with its siblings up to the root. The verifier
of multi-proofs keeps two cursors into the leaves and the nodes computed so far, which
together are a queue, and one cursor into the proof; a flag says where the second operand of
each hash comes from. Nothing is assumed of `sha256`.
-/
namespace SorobanKit.Merkle
open HostHashQueue HostInteger

/-- `BytesN<32>`; byte strings of one length are ordered as the numbers they spell. -/
abbrev Node := BitVec 256

section Verifier
variable (sha256 : BitVec 512 → Node)

def hashPairSorted (a b : Node) : Node :=
  let (lo, hi) := if a ≤ b then (a, b) else (b, a)
  sha256 (lo ++ hi)

def verifyMerkleProof (leaf : Node) (proof : List Node) (root : Node) : Bool :=
  proof.foldl (hashPairSorted sha256) leaf = root

/-- The nodes computed so far and the three positions of the reading loop. -/
structure Cursor where
  hashes : List Node
  leafPos : ℕ
  hashPos : ℕ
  proofPos : ℕ

/-- The closure `next_node`: the leaves first, then the computed hashes. -/
def nextNode (leaves : List Node) (m : Cursor) : Option Node × Cursor :=
  if m.leafPos < leaves.length then
    (leaves[m.leafPos]?, { m with leafPos := saturatingAddU32 m.leafPos 1 })
  else
    (m.hashes[m.hashPos]?, { m with hashPos := saturatingAddU32 m.hashPos 1 })

def nextProof (proof : List Node) (m : Cursor) : Option Node × Cursor :=
  (proof[m.proofPos]?, { m with proofPos := saturatingAddU32 m.proofPos 1 })

/-- One round of the loop over `proof_flags`; `none` is the early `return false`. -/
def hashStep (leaves proof : List Node) (m : Cursor) (flag : Bool) : Option Cursor := do
  let (a, m) := nextNode leaves m
  let a ← a
  let (b, m) := if flag then nextNode leaves m else nextProof proof m
  let b ← b
  return { m with hashes := m.hashes ++ [hashPairSorted sha256 a b] }

def lengthsFit (leavesLen proofLen totalHashes : ℕ) : Bool :=
  match checkedAddU32 leavesLen proofLen with
  | some n => checkedAddU32 totalHashes 1 = some n
  | none => false

def verifyMerkleMultiProof (leaves proof : List Node) (proofFlags : List Bool) (root : Node) :
    Bool :=
  if leaves.length = 0 then false
  else if lengthsFit leaves.length proof.length proofFlags.length = false then false
  else if proofFlags.length = 0 then leaves[0]? = some root
  else
    match proofFlags.foldlM (hashStep sha256 leaves proof) ⟨[], 0, 0, 0⟩ with
    | none => false
    | some m => if m.proofPos ≠ proof.length then false else m.hashes.getLast? = some root

end Verifier

variable {sha256 : BitVec 512 → Node}

theorem hashPairSorted_comm (a b : Node) : hashPairSorted sha256 a b = hashPairSorted sha256 b a := by
  unfold hashPairSorted
  by_cases hab : a ≤ b
  · by_cases hba : b ≤ a
    · rw [BitVec.le_antisymm hab hba]
    · simp [hab, hba]
  · have hba : b ≤ a := (BitVec.le_total a b).resolve_left hab
    simp [hab, hba]

theorem verifyMerkleProof_of_under {root node : Node}
    (h : Under (hashPairSorted sha256) root node) :
    ∃ proof, verifyMerkleProof sha256 node proof root = true := by
  obtain ⟨siblings, hroot⟩ := h
  exact ⟨siblings, by simpa [verifyMerkleProof, climb] using hroot⟩

theorem lengthsFit_eq {leavesLen proofLen totalHashes : ℕ}
    (h : lengthsFit leavesLen proofLen totalHashes = true) :
    leavesLen + proofLen = totalHashes + 1 ∧ totalHashes + 1 ≤ u32Max := by
  unfold lengthsFit checkedAddU32 at h
  split at h
  · next n hn =>
    simp only [decide_eq_true_eq] at h
    split at hn
    · split at h
      · cases hn
        exact ⟨(Option.some.inj h).symm, by assumption⟩
      · cases h
    · cases hn
  · cases h

/-- The nodes not yet read, and the hashes of the proof not yet read. -/
structure Represents (leaves proof : List Node) (m : Cursor) (queue spare : List Node) : Prop where
  queue_eq : queue = leaves.drop m.leafPos ++ m.hashes.drop m.hashPos
  spare_eq : spare = proof.drop m.proofPos
  leaves_first : m.leafPos < leaves.length → m.hashPos = 0
  hashPos_le : m.hashPos ≤ m.hashes.length

section Simulation
variable {leaves proof queue spare : List Node} {m m' : Cursor}

theorem Represents.start : Represents leaves proof ⟨[], 0, 0, 0⟩ leaves proof :=
  ⟨by simp, by simp, fun _ => rfl, le_refl 0⟩

theorem saturatingAddU32_one {n k : ℕ} (hlt : n < k) (hk : k ≤ u32Max) :
    saturatingAddU32 n 1 = n + 1 := by
  unfold saturatingAddU32
  omega

theorem Represents.nextNode (h : Represents leaves proof m queue spare) {a : Node}
    (hleaves : leaves.length ≤ u32Max) (hhashes : m.hashes.length ≤ u32Max)
    (hnext : Merkle.nextNode leaves m = (some a, m')) :
    ∃ rest, queue = a :: rest ∧ Represents leaves proof m' rest spare ∧ m'.hashes = m.hashes := by
  unfold Merkle.nextNode at hnext
  split at hnext
  · next hlt =>
    rw [saturatingAddU32_one hlt hleaves, Prod.mk.injEq] at hnext
    obtain ⟨hget, rfl⟩ := hnext
    have hpos := h.leaves_first hlt
    have hdrop := List.drop_eq_getElem_cons hlt
    rw [List.getElem?_eq_getElem hlt, Option.some.injEq] at hget
    refine ⟨leaves.drop (m.leafPos + 1) ++ m.hashes.drop m.hashPos, ?_, ⟨rfl, h.spare_eq, ?_, ?_⟩, rfl⟩
    · rw [h.queue_eq, hdrop, hget]
      rfl
    · exact fun _ => hpos
    · exact h.hashPos_le
  · next hge =>
    rw [Prod.mk.injEq] at hnext
    obtain ⟨hget, rfl⟩ := hnext
    have hlt : m.hashPos < m.hashes.length := (List.getElem?_eq_some_iff.mp hget).1
    have hdrop := List.drop_eq_getElem_cons hlt
    have hnil : leaves.drop m.leafPos = [] := List.drop_eq_nil_of_le (by omega)
    rw [List.getElem?_eq_getElem hlt, Option.some.injEq] at hget
    refine ⟨m.hashes.drop (m.hashPos + 1), ?_, ⟨?_, h.spare_eq, ?_, ?_⟩, rfl⟩
    · rw [h.queue_eq, hnil, hdrop, hget]
      rfl
    · simp [hnil, saturatingAddU32_one hlt hhashes]
    · exact fun hlt => absurd hlt hge
    · simp only [saturatingAddU32_one hlt hhashes]
      omega

theorem Represents.nextProof (h : Represents leaves proof m queue spare) {b : Node}
    (hproof : proof.length ≤ u32Max) (hnext : Merkle.nextProof proof m = (some b, m')) :
    ∃ rest, spare = b :: rest ∧ Represents leaves proof m' queue rest ∧ m'.hashes = m.hashes := by
  unfold Merkle.nextProof at hnext
  rw [Prod.mk.injEq] at hnext
  obtain ⟨hget, rfl⟩ := hnext
  have hlt : m.proofPos < proof.length := (List.getElem?_eq_some_iff.mp hget).1
  have hdrop := List.drop_eq_getElem_cons hlt
  rw [List.getElem?_eq_getElem hlt, Option.some.injEq] at hget
  refine ⟨proof.drop (m.proofPos + 1), ?_, ⟨h.queue_eq, ?_, h.leaves_first, h.hashPos_le⟩, rfl⟩
  · rw [h.spare_eq, hdrop, hget]
  · simp [saturatingAddU32_one hlt hproof]

theorem Represents.push (h : Represents leaves proof m queue spare) (c : Node) :
    Represents leaves proof { m with hashes := m.hashes ++ [c] } (queue ++ [c]) spare := by
  refine ⟨?_, h.spare_eq, h.leaves_first, ?_⟩
  · rw [h.queue_eq, List.append_assoc, List.drop_append_of_le_length h.hashPos_le]
  · have hle := h.hashPos_le
    simp only [List.length_append]
    omega

theorem hashStep_consumeOne (h : Represents leaves proof m queue spare) {flag : Bool}
    (hleaves : leaves.length ≤ u32Max) (hproof : proof.length ≤ u32Max)
    (hhashes : m.hashes.length ≤ u32Max) (hstep : hashStep sha256 leaves proof m flag = some m') :
    ∃ queue' spare', consumeOne (hashPairSorted sha256) (queue, spare) flag = some (queue', spare') ∧
      Represents leaves proof m' queue' spare' ∧ m'.hashes.length = m.hashes.length + 1 := by
  unfold hashStep at hstep
  cases hfirst : Merkle.nextNode leaves m with
  | mk a? m₁ =>
    simp only [hfirst, Option.bind_eq_bind, Option.bind_eq_some_iff] at hstep
    obtain ⟨a, rfl, hstep⟩ := hstep
    obtain ⟨rest, rfl, hm₁, hkeep₁⟩ := h.nextNode hleaves hhashes hfirst
    cases flag with
    | true =>
      cases hsecond : Merkle.nextNode leaves m₁ with
      | mk b? m₂ =>
        simp only [↓reduceIte, hsecond] at hstep
        obtain ⟨b, rfl, hstep⟩ := hstep
        obtain ⟨rest', rfl, hm₂, hkeep₂⟩ := hm₁.nextNode hleaves (by rw [hkeep₁]; exact hhashes) hsecond
        cases hstep
        exact ⟨_, _, consumeOne_true a b rest' spare, hm₂.push _, by simp [hkeep₁, hkeep₂]⟩
    | false =>
      cases hsecond : Merkle.nextProof proof m₁ with
      | mk b? m₂ =>
        simp only [Bool.false_eq_true, ↓reduceIte, hsecond] at hstep
        obtain ⟨b, rfl, hstep⟩ := hstep
        obtain ⟨rest', rfl, hm₂, hkeep₂⟩ := hm₁.nextProof hproof hsecond
        cases hstep
        exact ⟨_, _, consumeOne_false a b rest rest', hm₂.push _, by simp [hkeep₁, hkeep₂]⟩

theorem hashLoop_consume {flags : List Bool} (h : Represents leaves proof m queue spare)
    (hleaves : leaves.length ≤ u32Max) (hproof : proof.length ≤ u32Max)
    (hhashes : m.hashes.length + flags.length ≤ u32Max)
    (hloop : flags.foldlM (hashStep sha256 leaves proof) m = some m') :
    ∃ queue' spare', consume (hashPairSorted sha256) (queue, spare) flags = some (queue', spare') ∧
      Represents leaves proof m' queue' spare' ∧
      m'.hashes.length = m.hashes.length + flags.length := by
  induction flags generalizing m queue spare with
  | nil =>
    cases hloop
    exact ⟨queue, spare, rfl, h, rfl⟩
  | cons flag flags ih =>
    simp only [List.foldlM_cons, Option.bind_eq_bind, Option.bind_eq_some_iff] at hloop
    obtain ⟨m₁, hstep, hloop⟩ := hloop
    simp only [List.length_cons] at hhashes
    obtain ⟨queue₁, spare₁, hone, hm₁, hlen⟩ :=
      hashStep_consumeOne h hleaves hproof (by omega) hstep
    obtain ⟨queue', spare', hrest, hm', hlen'⟩ := ih hm₁ (by omega) hloop
    refine ⟨queue', spare', ?_, hm', ?_⟩
    · simp only [consume, List.foldlM_cons, hone, Option.bind_eq_bind, Option.bind_some]
      exact hrest
    · simp only [List.length_cons]
      omega

/-- At the end one node is unread, and it is the hash computed last. -/
theorem Represents.last (h : Represents leaves proof m queue spare) (hone : queue.length = 1)
    (hnonempty : 0 < m.hashes.length) {root : Node} (hlast : m.hashes.getLast? = some root) :
    queue = [root] := by
  have hlen := congrArg List.length h.queue_eq
  simp only [List.length_append, List.length_drop] at hlen
  have hread : ¬ m.leafPos < leaves.length := by
    intro hlt
    have hzero := h.leaves_first hlt
    omega
  have hnil : leaves.drop m.leafPos = [] := List.drop_eq_nil_of_le (by omega)
  obtain ⟨x, hx⟩ := List.length_eq_one_iff.mp hone
  have hdrop : m.hashes.drop m.hashPos = [x] := by
    rw [← hx, h.queue_eq, hnil, List.nil_append]
  have hsplit := List.take_append_drop m.hashPos m.hashes
  rw [hdrop] at hsplit
  rw [← hsplit, List.getLast?_append, List.getLast?_singleton, Option.some_or,
    Option.some.injEq] at hlast
  rw [hx, hlast]

theorem Represents.nextNode_head {a : Node} (h : Represents leaves proof m (a :: queue) spare) :
    ∃ m₁, Merkle.nextNode leaves m = (some a, m₁) ∧ m₁.proofPos = m.proofPos := by
  have hqueue := h.queue_eq
  unfold Merkle.nextNode
  by_cases hlt : m.leafPos < leaves.length
  · rw [List.drop_eq_getElem_cons hlt, List.cons_append] at hqueue
    have ha : a = leaves[m.leafPos] := (List.cons.inj hqueue).1
    rw [if_pos hlt, List.getElem?_eq_getElem hlt, ha]
    exact ⟨_, rfl, rfl⟩
  · rw [List.drop_eq_nil_of_le (show leaves.length ≤ m.leafPos by omega), List.nil_append] at hqueue
    have hhead := congrArg List.head? hqueue
    rw [List.head?_cons, List.head?_drop] at hhead
    rw [if_neg hlt, ← hhead]
    exact ⟨_, rfl, rfl⟩

theorem Represents.nextProof_head {b : Node} (h : Represents leaves proof m queue (b :: spare))
    (hproof : proof.length ≤ u32Max) :
    Merkle.nextProof proof m = (some b, { m with proofPos := m.proofPos + 1 }) := by
  have hhead := congrArg List.head? h.spare_eq
  rw [List.head?_cons, List.head?_drop] at hhead
  have hlt : m.proofPos < proof.length := (List.getElem?_eq_some_iff.mp hhead.symm).1
  unfold Merkle.nextProof
  rw [saturatingAddU32_one hlt hproof, ← hhead]

theorem hashStep_proof (sha256 : BitVec 512 → Node) {a b : Node}
    (h : Represents leaves proof m (a :: queue) (b :: spare))
    (hleaves : leaves.length ≤ u32Max) (hproof : proof.length ≤ u32Max)
    (hhashes : m.hashes.length ≤ u32Max) :
    ∃ m', hashStep sha256 leaves proof m false = some m' ∧
      Represents leaves proof m' (queue ++ [hashPairSorted sha256 a b]) spare ∧
      m'.hashes.length = m.hashes.length + 1 ∧ m'.proofPos = m.proofPos + 1 := by
  obtain ⟨m₁, hfirst, hpos⟩ := h.nextNode_head
  obtain ⟨rest, hrest, hm₁, hkeep⟩ := h.nextNode hleaves hhashes hfirst
  cases hrest
  have hsecond := hm₁.nextProof_head hproof
  have hstep : hashStep sha256 leaves proof m false =
      some { m₁ with
        hashes := m₁.hashes ++ [hashPairSorted sha256 a b], proofPos := m₁.proofPos + 1 } := by
    simp [hashStep, hfirst, hsecond]
  obtain ⟨queue', spare', hone, hm', hlen⟩ := hashStep_consumeOne h hleaves hproof hhashes hstep
  rw [consumeOne_false] at hone
  cases hone
  exact ⟨_, hstep, hm', hlen, by simp [hpos]⟩

/-- From one unread node, taking every operand from the proof climbs the path that the
    verifier of single proofs climbs. -/
theorem hashLoop_path (sha256 : BitVec 512 → Node) {current : Node}
    (h : Represents leaves proof m [current] spare)
    (hleaves : leaves.length ≤ u32Max) (hproof : proof.length ≤ u32Max)
    (hhashes : m.hashes.length + spare.length ≤ u32Max) :
    ∃ m', (List.replicate spare.length false).foldlM (hashStep sha256 leaves proof) m = some m' ∧
      Represents leaves proof m' [spare.foldl (hashPairSorted sha256) current] [] ∧
      m'.hashes.length = m.hashes.length + spare.length ∧
      m'.proofPos = m.proofPos + spare.length := by
  induction spare generalizing m current with
  | nil => exact ⟨m, rfl, h, rfl, rfl⟩
  | cons b spare ih =>
    simp only [List.length_cons] at hhashes
    obtain ⟨m₁, hstep, hm₁, hlen₁, hpos₁⟩ := hashStep_proof sha256 h hleaves hproof (by omega)
    obtain ⟨m', hloop, hm', hlen', hpos'⟩ := ih hm₁ (by omega)
    refine ⟨m', ?_, hm', ?_, ?_⟩
    · simp only [List.length_cons, List.replicate_succ, List.foldlM_cons, hstep]
      exact hloop
    · simp only [List.length_cons]
      omega
    · rw [hpos', hpos₁, List.length_cons]
      omega

theorem Represents.getLast? {current : Node} (h : Represents leaves proof m [current] spare)
    (hnonempty : 0 < m.hashes.length) : m.hashes.getLast? = some current := by
  have hlast := List.getLast?_eq_some_getLast (List.length_pos_iff.mp hnonempty)
  have hcurrent := h.last rfl hnonempty hlast
  rw [hlast, List.cons.inj hcurrent |>.1]

end Simulation

/-- Whatever flags and proof hashes are supplied, an accepted multi-proof has a path to the
    root for every leaf, and every proof hash was used. -/
theorem verifyMerkleMultiProof_sound (sha256 : BitVec 512 → Node) (leaves proof : List Node)
    (proofFlags : List Bool) (root : Node)
    (h : verifyMerkleMultiProof sha256 leaves proof proofFlags root = true) :
    (∀ leaf ∈ leaves, ∃ path, verifyMerkleProof sha256 leaf path root = true) ∧
      proofFlags.count false = proof.length ∧
      ∀ node ∈ proof, ∃ path, verifyMerkleProof sha256 node path root = true := by
  unfold verifyMerkleMultiProof at h
  split at h
  · cases h
  split at h
  · cases h
  next hleaves hfit =>
  obtain ⟨hcount, hbound⟩ := lengthsFit_eq (Bool.not_eq_false _ ▸ hfit)
  split at h
  · next hflags =>
    -- a single leaf and no proof: the leaf is the root
    have hnil : proof = [] := List.length_eq_zero_iff.mp (by omega)
    obtain ⟨leaf, rfl⟩ := List.length_eq_one_iff.mp (show leaves.length = 1 by omega)
    have hroot : leaf = root := by simpa using h
    subst hnil hroot
    rw [List.length_eq_zero_iff.mp hflags]
    refine ⟨fun x hx => ?_, rfl, by simp⟩
    rw [List.mem_singleton.mp hx]
    exact verifyMerkleProof_of_under (under_self leaf)
  next hflags =>
  split at h
  · cases h
  next m hloop =>
  split at h
  · cases h
  next hproof =>
  obtain ⟨queue, spare, hconsume, hm, hlen⟩ :=
    hashLoop_consume Represents.start (by omega) (by omega) (by simp; omega) hloop
  obtain ⟨htotal, hused⟩ := consume_length hconsume
  have hspare : spare = [] := by
    rw [hm.spare_eq]
    exact List.drop_eq_nil_of_le (by omega)
  rw [hspare, List.length_nil] at htotal hused
  have hqueue : queue = [root] := by
    refine hm.last (by omega) ?_ (by simpa using h)
    simp only [List.length_nil] at hlen
    omega
  rw [hspare, hqueue] at hconsume
  obtain ⟨hunder, hunder'⟩ := under_of_consume hashPairSorted_comm hconsume
  exact ⟨fun leaf hleaf => verifyMerkleProof_of_under (hunder leaf hleaf), by omega,
    fun node hnode => verifyMerkleProof_of_under (hunder' node hnode)⟩

theorem lengthsFit_of_eq {leavesLen proofLen totalHashes : ℕ}
    (heq : leavesLen + proofLen = totalHashes + 1) (hle : totalHashes + 1 ≤ u32Max) :
    lengthsFit leavesLen proofLen totalHashes = true := by
  simp [lengthsFit, checkedAddU32, heq, hle]

/-- For one leaf and flags that take every operand from the proof, the queue machine is the
    fold of the verifier of single proofs. -/
theorem verifyMerkleMultiProof_one_leaf (sha256 : BitVec 512 → Node) (leaf : Node)
    (proof : List Node) (root : Node) (hlen : proof.length < u32Max) :
    verifyMerkleMultiProof sha256 [leaf] proof (List.replicate proof.length false) root =
      verifyMerkleProof sha256 leaf proof root := by
  have hfit : lengthsFit 1 proof.length proof.length = true :=
    lengthsFit_of_eq (Nat.add_comm 1 _) hlen
  unfold verifyMerkleMultiProof
  simp only [List.length_singleton, List.length_replicate, hfit, one_ne_zero, if_false,
    Bool.true_eq_false]
  by_cases hnil : proof.length = 0
  · -- no proof hash: both compare the leaf with the root
    rw [List.length_eq_zero_iff] at hnil
    subst hnil
    rw [Bool.eq_iff_iff]
    simp only [List.length_nil, if_true, List.getElem?_cons_zero, Option.some.injEq,
      decide_eq_true_eq]
    exact decide_eq_true_iff.symm
  · rw [if_neg hnil]
    have hstart : Represents [leaf] proof ⟨[], 0, 0, 0⟩ [leaf] proof := Represents.start
    obtain ⟨m, hloop, hm, hhashes, hpos⟩ :=
      hashLoop_path sha256 hstart (by simp; omega) (by omega) (by simp; omega)
    simp only [List.length_nil, Nat.zero_add] at hhashes hpos
    have hlast := hm.getLast? (by omega)
    rw [Bool.eq_iff_iff]
    simp [hloop, hpos, hlast, verifyMerkleProof]

/-- Any function will do as a hash; this one adds the halves with weights. -/
def demoSha256 (x : BitVec 512) : Node := x.truncate 256 * 3 + (x >>> 256).truncate 256 * 5 + 1

def demoRoot : Node :=
  hashPairSorted demoSha256 (hashPairSorted demoSha256 7 9) (hashPairSorted demoSha256 4 2)

/-- The leaves 7, 9 and 4, with 2 as the only proof hash. -/
theorem verifyMerkleMultiProof_sound_demo :
    (∀ leaf ∈ [7, 9, 4], ∃ path, verifyMerkleProof demoSha256 leaf path demoRoot = true) ∧
      [true, false, true].count false = 1 ∧
      ∀ node ∈ [2], ∃ path, verifyMerkleProof demoSha256 node path demoRoot = true :=
  verifyMerkleMultiProof_sound demoSha256 [7, 9, 4] [2] [true, false, true] demoRoot
    (by decide +kernel)

/-- A path of three hashes from the leaf 7. -/
theorem verifyMerkleMultiProof_one_leaf_demo :
    verifyMerkleMultiProof demoSha256 [7] [9, 4, 2] [false, false, false] demoRoot =
      verifyMerkleProof demoSha256 7 [9, 4, 2] demoRoot :=
  verifyMerkleMultiProof_one_leaf demoSha256 7 [9, 4, 2] demoRoot (by decide)

end SorobanKit.Merkle
