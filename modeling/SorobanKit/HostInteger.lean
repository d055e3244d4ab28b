import Mathlib.Algebra.BigOperators.Group.List.Basic
import Mathlib.Algebra.Order.BigOperators.Group.List
import Mathlib.Algebra.Order.Group.Abs
import Mathlib.Algebra.Order.Group.Int
import Mathlib.Algebra.Order.Ring.Int
import Mathlib.Data.Int.Basic
import Mathlib.Order.Lattice

set_option autoImplicit false

/-!
# Fixed-width integers with overflow checks

A value of type `i128` is an `Int` in range and a value of type `u32` a `Nat` in range.
Every operation that can leave the range returns `none` there; `saturating` operations
stop at the bound.
-/
namespace SorobanKit.HostInteger

/-- `-2^127 ≤ x < 2^127`. -/
def InI128 (x : ℤ) : Prop :=
  -170141183460469231731687303715884105728 ≤ x ∧ x ≤ 170141183460469231731687303715884105727

instance (x : ℤ) : Decidable (InI128 x) := inferInstanceAs (Decidable (_ ∧ _))

def checked (x : ℤ) : Option ℤ := if InI128 x then some x else none

def checkedAdd (a b : ℤ) : Option ℤ := checked (a + b)
def checkedSub (a b : ℤ) : Option ℤ := checked (a - b)
def checkedMul (a b : ℤ) : Option ℤ := checked (a * b)
def checkedNeg (a : ℤ) : Option ℤ := checked (-a)
def checkedAbs (a : ℤ) : Option ℤ := checked |a|

/-- Truncated toward zero. -/
def checkedDiv (a b : ℤ) : Option ℤ := if b = 0 then none else checked (a.tdiv b)

/-- The remainder of the truncated division, which overflows with it. -/
def checkedRem (a b : ℤ) : Option ℤ := (checkedDiv a b).map fun _ => a.tmod b

@[simp] theorem checked_eq_some {x y : ℤ} : checked x = some y ↔ InI128 x ∧ x = y := by
  unfold checked
  split <;> simp_all

@[simp] theorem checkedAdd_eq_some {a b c : ℤ} :
    checkedAdd a b = some c ↔ InI128 (a + b) ∧ a + b = c := checked_eq_some

@[simp] theorem checkedSub_eq_some {a b c : ℤ} :
    checkedSub a b = some c ↔ InI128 (a - b) ∧ a - b = c := checked_eq_some

@[simp] theorem checkedMul_eq_some {a b c : ℤ} :
    checkedMul a b = some c ↔ InI128 (a * b) ∧ a * b = c := checked_eq_some

@[simp] theorem checkedNeg_eq_some {a c : ℤ} :
    checkedNeg a = some c ↔ InI128 (-a) ∧ -a = c := checked_eq_some

@[simp] theorem checkedDiv_eq_some {a b c : ℤ} :
    checkedDiv a b = some c ↔ b ≠ 0 ∧ InI128 (a.tdiv b) ∧ a.tdiv b = c := by
  unfold checkedDiv
  by_cases hzero : b = 0
  · simp [hzero]
  · rw [if_neg hzero, checked_eq_some]
    exact (and_iff_right hzero).symm

/-- `x << n`, which panics if `n` is not below the width and loses the bits it shifts out. -/
def shiftLeft (x : ℤ) (n : ℕ) : Option ℤ :=
  if n < 128 then some ((x * 2 ^ n).bmod (2 ^ 128)) else none

theorem shiftLeft_one {n : ℕ} (h : n < 127) : shiftLeft 1 n = some (2 ^ n) := by
  have hpow : (2 : ℤ) ^ n < 2 ^ 127 := Int.pow_lt_pow_of_lt (by decide) h
  have hnonneg : (0 : ℤ) ≤ 2 ^ n := Int.pow_nonneg (by decide)
  rw [shiftLeft, if_pos (by omega), Int.one_mul, Int.bmod_eq_of_le (by omega) (by omega)]

/-- The zeros in front of the first one in the two's complement. -/
def leadingZeros (x : ℤ) : ℕ := (BitVec.ofInt 128 x).clz.toNat

/-- A positive value starts with the zero of its sign, and the rest of its bits hold it. -/
theorem leadingZeros_bounds {x : ℕ} (hx : 0 < x) (hfits : InI128 x) :
    0 < leadingZeros x ∧ x < 2 ^ (128 - leadingZeros x) := by
  have hvalue : (BitVec.ofInt 128 x).toNat = x := by
    rw [BitVec.toNat_ofInt]
    unfold InI128 at hfits
    omega
  have hne : BitVec.ofInt 128 x ≠ 0#128 := by
    intro hzero
    rw [hzero] at hvalue
    exact hx.ne hvalue
  refine ⟨?_, ?_⟩
  · by_contra hsign
    have hlarge : 2 ^ (128 - 1 - (BitVec.ofInt 128 x).clz.toNat) ≤ (BitVec.ofInt 128 x).toNat :=
      BitVec.two_pow_sub_clz_le_toNat_of_ne_zero (by decide) hne
    have hclz : (BitVec.ofInt 128 x).clz.toNat = 0 := Nat.eq_zero_of_not_pos hsign
    rw [hvalue, hclz] at hlarge
    unfold InI128 at hfits
    omega
  · have hbelow : (BitVec.ofInt 128 x).toNat < 2 ^ (128 - (BitVec.ofInt 128 x).clz.toNat) :=
      BitVec.toNat_lt_two_pow_sub_clz
    rw [hvalue] at hbelow
    exact hbelow

/-- A value of type `i128`. -/
abbrev I128 := { x : ℤ // InI128 x }

def saturate (x : ℤ) : ℤ :=
  max (-170141183460469231731687303715884105728) (min x 170141183460469231731687303715884105727)

def saturatingAdd (a b : ℤ) : ℤ := saturate (a + b)
def saturatingSub (a b : ℤ) : ℤ := saturate (a - b)
def saturatingMul (a b : ℤ) : ℤ := saturate (a * b)

theorem saturate_of_inI128 {x : ℤ} (h : InI128 x) : saturate x = x := by
  unfold InI128 at h
  unfold saturate
  omega

theorem saturate_of_nonneg {x : ℤ} (h : 0 ≤ x) :
    saturate x = min x 170141183460469231731687303715884105727 := by
  unfold saturate
  omega

/-- A sum of amounts that are not negative is exact as long as it fits. -/
theorem foldl_saturatingAdd {α : Type} (f : α → ℤ) (l : List α) {start : ℤ} (hstart : 0 ≤ start)
    (hnonneg : ∀ x ∈ l, 0 ≤ f x)
    (hfits : start + (l.map f).sum ≤ 170141183460469231731687303715884105727) :
    l.foldl (fun acc x => saturatingAdd acc (f x)) start = start + (l.map f).sum := by
  induction l generalizing start with
  | nil => simp
  | cons x l ih =>
    obtain ⟨hx, hrest⟩ := List.forall_mem_cons.mp hnonneg
    rw [List.map_cons, List.sum_cons] at hfits
    have hsum : 0 ≤ (l.map f).sum := List.sum_nonneg fun v hv => by
      obtain ⟨y, hy, rfl⟩ := List.mem_map.mp hv
      exact hrest y hy
    have hadd : saturatingAdd start (f x) = start + f x :=
      saturate_of_inI128 ⟨by omega, by omega⟩
    rw [List.foldl_cons, hadd, ih (by omega) hrest (by omega), List.map_cons, List.sum_cons]
    omega

/-- The largest `u32`. -/
def u32Max : ℕ := 4294967295

def checkedAddU32 (a b : ℕ) : Option ℕ := if a + b ≤ u32Max then some (a + b) else none

@[simp] theorem checkedAddU32_eq_some {a b c : ℕ} :
    checkedAddU32 a b = some c ↔ a + b ≤ u32Max ∧ a + b = c := by
  unfold checkedAddU32
  split <;> simp_all

def saturatingAddU32 (a b : ℕ) : ℕ := min (a + b) u32Max

def saturatingMulU32 (a b : ℕ) : ℕ := min (a * b) u32Max

/-- Saturating additions one after the other stop at the bound as one addition would. -/
theorem foldl_saturatingAddU32 {α : Type} (f : α → ℕ) (l : List α) {start : ℕ}
    (hstart : start ≤ u32Max) :
    l.foldl (fun acc x => saturatingAddU32 acc (f x)) start = min (start + (l.map f).sum) u32Max := by
  induction l generalizing start with
  | nil => simp [hstart]
  | cons x l ih =>
    have hle : saturatingAddU32 start (f x) ≤ u32Max := min_le_right _ _
    rw [List.foldl_cons, ih hle, List.map_cons, List.sum_cons]
    unfold saturatingAddU32
    omega

/-- The largest `u64`. -/
def u64Max : ℕ := 18446744073709551615

def checkedAddU64 (a b : ℕ) : Option ℕ := if a + b ≤ u64Max then some (a + b) else none

@[simp] theorem checkedAddU64_eq_some {a b c : ℕ} :
    checkedAddU64 a b = some c ↔ a + b ≤ u64Max ∧ a + b = c := by
  unfold checkedAddU64
  split <;> simp_all

def saturatingAddU64 (a b : ℕ) : ℕ := min (a + b) u64Max

/-- Subtraction of naturals already stops at zero. -/
def saturatingSubU32 (a b : ℕ) : ℕ := a - b

end SorobanKit.HostInteger
