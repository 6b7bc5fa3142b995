import Mathlib.Data.Nat.Bitwise
import Mathlib.Tactic.Ring

/-!
# 32-bit arithmetic of the kernel target

`FlatPtr`, `size_t` and `unsigned` are 32-bit on the target, so their values are natural numbers
below `2 ^ 32` and every operation is reduced modulo `2 ^ 32`. This module gives the few
operations that the modelled code uses and that do not come with a guard against wrapping:

* `toInt32`: the value of an `unsigned` converted to `int`;
* `roundUpToPowerOfTwo`: `round_up_to_power_of_two` of `AK/StdLibExtras.h`.

`roundUpToPowerOfTwo_bounds` is the only property of the rounding that its callers rely on. It
holds for every non-zero alignment, a power of two or not.
-/

namespace AK

open BitVec Nat

/-- The value of the 32-bit unsigned `n` after conversion to `int`. -/
def toInt32 (n : ℕ) : ℤ :=
  if n % 2 ^ 32 < 2 ^ 31 then (n % 2 ^ 32 : ℕ) else (n % 2 ^ 32 : ℕ) - 2 ^ 32

/-- Unsigned subtraction of 32-bit values. -/
def sub32 (a b : ℕ) : ℕ := (a + 2 ^ 32 - b) % 2 ^ 32

/-- Bitwise complement of a 32-bit value. -/
def not32 (a : ℕ) : ℕ := 2 ^ 32 - 1 - a

/-- `round_up_to_power_of_two(value, power_of_two)`:
`((value - 1) & ~(power_of_two - 1)) + power_of_two` on `unsigned`. -/
def roundUpToPowerOfTwo (value powerOfTwo : ℕ) : ℕ :=
  ((sub32 value 1 &&& not32 (sub32 powerOfTwo 1)) + powerOfTwo) % 2 ^ 32

/-- A difference that is not negative does not wrap around. -/
theorem sub32_eq_sub {a b : ℕ} (hle : b ≤ a) (ha : a < 2 ^ 32) : sub32 a b = a - b := by
  unfold sub32
  omega

/-- The difference of two addresses less than `2 ^ 31` apart survives the conversion to `int`. -/
theorem toInt32_sub32 {a b : ℕ} (ha : a < 2 ^ 32) (hb : b < 2 ^ 32)
    (hle : b ≤ a → a - b < 2 ^ 31) (hlt : a < b → b - a ≤ 2 ^ 31) :
    toInt32 (sub32 a b) = (a : ℤ) - b := by
  unfold toInt32 sub32
  split <;> omega

/-- The conversion to `int` keeps the test for zero. -/
theorem toInt32_sub32_eq_zero {a b : ℕ} (ha : a < 2 ^ 32) (hb : b < 2 ^ 32) :
    toInt32 (sub32 a b) = 0 ↔ a = b := by
  unfold toInt32 sub32
  split <;> omega

/-- A 32-bit value is the sum of its bits outside and inside a mask. -/
theorem and_not32_add_and {a m : ℕ} (ha : a < 2 ^ 32) (hm : m < 2 ^ 32) :
    (a &&& not32 m) + (a &&& m) = a := by
  let x := BitVec.ofNat 32 a
  let y := BitVec.ofNat 32 m
  have hdisj : (x &&& ~~~y) &&& (x &&& y) = 0#32 := by
    ext i hi
    simp only [getElem_and, getElem_not, getElem_zero]
    cases x[i] <;> cases y[i] <;> rfl
  have hor : (x &&& ~~~y) ||| (x &&& y) = x := by
    ext i hi
    simp only [getElem_and, getElem_not, getElem_or]
    cases x[i] <;> cases y[i] <;> rfl
  -- disjoint masks add without carries
  have hsum := toNat_add_of_and_eq_zero hdisj
  rw [add_eq_or_of_and_eq_zero _ _ hdisj, hor] at hsum
  have hxa : x.toNat = a := mod_eq_of_lt ha
  have hym : y.toNat = m := mod_eq_of_lt hm
  rw [toNat_and, toNat_and, BitVec.toNat_not, hxa, hym] at hsum
  exact hsum.symm

/-- Clearing the lowest bits of a value rounds it down. -/
theorem and_not32_two_pow {a k : ℕ} (ha : a < 2 ^ 32) (hk : k ≤ 32) :
    a &&& not32 (2 ^ k - 1) = a - a % 2 ^ k := by
  have hpow : 2 ^ k ≤ 2 ^ 32 := Nat.pow_le_pow_right (by decide) hk
  have hsplit := and_not32_add_and (a := a) (m := 2 ^ k - 1) ha (by omega)
  rw [and_two_pow_sub_one_eq_mod] at hsplit
  omega

/-- `((base + value + align - 1) & ~(align - 1)) - base` moves `value` up by less than the alignment,
such that the sum with `base` is aligned. -/
theorem alignUp_spec {base value k : ℕ} (hk : k ≤ 20) (hfit : base + value + 2 ^ 20 ≤ 2 ^ 32) :
    let aligned := sub32 (sub32 (base + value + 2 ^ k) 1 &&& not32 (sub32 (2 ^ k) 1)) base
    value ≤ aligned ∧ aligned < value + 2 ^ k ∧ 2 ^ k ∣ base + aligned := by
  have hpow : 2 ^ k ≤ 2 ^ 20 := Nat.pow_le_pow_right (by decide) hk
  have hpos : 0 < 2 ^ k := Nat.two_pow_pos k
  have hmask : sub32 (2 ^ k) 1 = 2 ^ k - 1 := by
    unfold sub32
    omega
  obtain ⟨last, hlast⟩ : ∃ last, last = base + value + 2 ^ k - 1 := ⟨_, rfl⟩
  have hvalue : sub32 (base + value + 2 ^ k) 1 = last := by
    unfold sub32
    omega
  have hmod := mod_lt last hpos
  have hdvd : 2 ^ k ∣ last - last % 2 ^ k := dvd_sub_mod last
  have hle := mod_le last (2 ^ k)
  rw [hmask, hvalue, and_not32_two_pow (by omega) (by omega)]
  -- From here on the remainder is any number below the alignment.
  generalize last % 2 ^ k = rest at *
  generalize 2 ^ k = align at *
  have hdown : sub32 (last - rest) base = last - rest - base := by
    unfold sub32
    omega
  simp only [hdown]
  refine ⟨by omega, by omega, ?_⟩
  rwa [show base + (last - rest - base) = last - rest by omega]

/-- Rounding moves a non-zero address up by less than the alignment. -/
theorem roundUpToPowerOfTwo_bounds {value align : ℕ} (hv : 0 < value) (ha : 0 < align)
    (hfit : value + align ≤ 2 ^ 32) :
    value ≤ roundUpToPowerOfTwo value align ∧ roundUpToPowerOfTwo value align < value + align := by
  have hsv : sub32 value 1 = value - 1 := by unfold sub32; omega
  have hsa : sub32 align 1 = align - 1 := by unfold sub32; omega
  have hsplit := and_not32_add_and (a := value - 1) (m := align - 1) (by omega) (by omega)
  have hlow : (value - 1) &&& (align - 1) ≤ align - 1 := Nat.and_le_right
  have hmod : ((value - 1 &&& not32 (align - 1)) + align) % 2 ^ 32 =
      (value - 1 &&& not32 (align - 1)) + align := mod_eq_of_lt (by omega)
  rw [roundUpToPowerOfTwo, hsv, hsa, hmod]
  omega

/-- A zero alignment rounds every address to zero. -/
theorem roundUpToPowerOfTwo_zero (value : ℕ) : roundUpToPowerOfTwo value 0 = 0 := by
  have hmask : not32 (sub32 0 1) = 0 := by decide
  rw [roundUpToPowerOfTwo, hmask, Nat.and_zero, Nat.zero_add, zero_mod]

end AK
