import Mathlib.Algebra.Group.Nat.Defs
import Mathlib.Data.List.Basic
import Mathlib.Data.Nat.Notation
import Mathlib.Logic.Function.Basic

set_option autoImplicit false

/-!
# Byte strings without separators

Fields are written one after the other with nothing between them. A field can be read back off the
front of a string when its encoding is self-delimiting: what follows cannot be taken for a part of
it. Fields of one fixed length are, and so are the injective encodings none of which is the
beginning of another.
-/
namespace SorobanKit.HostBytes

variable {α β γ : Type}

def SelfDelimiting (encode : α → List β) : Prop :=
  ∀ a b x y, encode a ++ x = encode b ++ y → a = b ∧ x = y

def PrefixFree (encode : α → List β) : Prop :=
  ∀ a b, encode a <+: encode b → encode a = encode b

theorem SelfDelimiting.injective {encode : α → List β} (h : SelfDelimiting encode) :
    Function.Injective encode := by
  intro a b hab
  exact (h a b [] [] (by rw [hab])).1

theorem SelfDelimiting.prefixFree {encode : α → List β} (h : SelfDelimiting encode) :
    PrefixFree encode := by
  intro a b hfront
  obtain ⟨rest, hrest⟩ := hfront
  rw [← List.append_nil (encode b)] at hrest
  rw [(h a b rest [] hrest).1]

theorem SelfDelimiting.of_length {encode : α → List β} {n : ℕ} (hinj : Function.Injective encode)
    (hlength : ∀ a, (encode a).length = n) : SelfDelimiting encode := by
  intro a b x y h
  have hparts := List.append_inj h ((hlength a).trans (hlength b).symm)
  exact ⟨hinj hparts.1, hparts.2⟩

theorem SelfDelimiting.of_prefixFree {encode : α → List β} (hinj : Function.Injective encode)
    (hfront : PrefixFree encode) : SelfDelimiting encode := by
  intro a b x y h
  have heq : encode a = encode b := by
    rcases List.append_eq_append_iff.mp h with ⟨rest, hb, _⟩ | ⟨rest, ha, _⟩
    · exact hfront a b ⟨rest, hb.symm⟩
    · exact (hfront b a ⟨rest, ha.symm⟩).symm
  rw [heq] at h
  exact ⟨hinj heq, List.append_cancel_left h⟩

/-- The `k` low bytes of a number, the highest first. -/
def beBytes : ℕ → ℕ → List UInt8
  | 0, _ => []
  | k + 1, n => beBytes k (n / 256) ++ [UInt8.ofNat n]

theorem beBytes_length (k n : ℕ) : (beBytes k n).length = k := by
  induction k generalizing n with
  | zero => rfl
  | succ k ih => rw [beBytes, List.length_append, ih, List.length_singleton]

theorem beBytes_inj {k m n : ℕ} (hm : m < 256 ^ k) (hn : n < 256 ^ k)
    (h : beBytes k m = beBytes k n) : m = n := by
  induction k generalizing m n with
  | zero =>
    rw [Nat.pow_zero] at hm hn
    omega
  | succ k ih =>
    rw [Nat.pow_succ] at hm hn
    rw [beBytes, beBytes] at h
    have hparts := List.append_inj' h rfl
    have hhigh := ih (Nat.div_lt_of_lt_mul (by omega)) (Nat.div_lt_of_lt_mul (by omega)) hparts.1
    have hlow := congrArg UInt8.toNat (List.singleton_inj.mp hparts.2)
    rw [UInt8.toNat_ofNat', UInt8.toNat_ofNat'] at hlow
    omega

/-- ASCII text. -/
def ascii (text : String) : List UInt8 := text.toList.map fun c => UInt8.ofNat c.toNat

end SorobanKit.HostBytes
