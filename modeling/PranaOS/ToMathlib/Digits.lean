import Mathlib.Data.Nat.Digits.Defs
import Mathlib.Tactic

/-!
# Numbers as strings of digits

A digit is a byte, `0` to `9` or a letter, and a string of digits is the number that they are in a base.

* `Digits.valueFrom`: the number that one gets from a number by writing digits behind it.
* `Digits.decimal`: a number in the base ten.
-/

namespace Digits

open List

/-- The value of a byte as a digit. -/
def digitValue (ch : UInt8) : Option ℕ :=
  if 48 ≤ ch ∧ ch ≤ 57 then some (ch.toNat - 48)
  else if 97 ≤ ch ∧ ch ≤ 122 then some (ch.toNat - 87)
  else if 65 ≤ ch ∧ ch ≤ 90 then some (ch.toNat - 55)
  else none

/-- The byte is a digit in the base. -/
def isDigitOf (base : ℕ) (ch : UInt8) : Bool := (digitValue ch).any (· < base)

/-- The number that follows `start` with the digits. -/
def valueFrom (base start : ℕ) (digits : List UInt8) : ℕ :=
  digits.foldl (fun n ch => n * base + (digitValue ch).getD 0) start

theorem digitValue_lt {base : ℕ} {ch : UInt8} (h : isDigitOf base ch) :
    (digitValue ch).getD 0 < base := by
  unfold isDigitOf at h
  cases hvalue : digitValue ch with
  | none => simp [hvalue] at h
  | some digit => simpa [hvalue] using h

/-- The number does not get smaller. -/
theorem le_valueFrom {base : ℕ} (hbase : 0 < base) (n : ℕ) (digits : List UInt8) :
    n ≤ valueFrom base n digits := by
  induction digits generalizing n with
  | nil => exact le_rfl
  | cons ch digits ih =>
    refine le_trans ?_ (ih _)
    exact (Nat.le_mul_of_pos_right n hbase).trans (Nat.le_add_right _ _)

variable (n : ℕ)

/-- A digit below ten. -/
def digit : UInt8 := UInt8.ofNat (48 + n)

theorem toNat_digit {n : ℕ} (h : n < 10) : (digit n).toNat = 48 + n := by
  rw [digit, UInt8.toNat_ofNat']
  omega

theorem digitValue_digit {n : ℕ} (h : n < 10) : digitValue (digit n) = some n := by
  have hnat := toNat_digit h
  unfold digitValue
  rw [if_pos]
  · rw [hnat, Nat.add_sub_cancel_left]
  · rw [UInt8.le_iff_toNat_le, UInt8.le_iff_toNat_le, hnat]
    exact ⟨Nat.le_add_right _ _, by simp only [UInt8.reduceToNat]; omega⟩

/-- A number in the base ten. -/
def decimal : List UInt8 := if n = 0 then [48] else (Nat.digits 10 n).reverse.map digit

theorem decimal_ne_nil : decimal n ≠ [] := by
  unfold decimal
  split
  next => exact cons_ne_nil _ _
  next h => simpa [Nat.digits_eq_nil_iff_eq_zero] using h

/-- The digits are below ten. -/
theorem exists_digit_of_mem_decimal {n : ℕ} {ch : UInt8} (h : ch ∈ decimal n) :
    ∃ m < 10, ch = digit m := by
  unfold decimal at h
  split at h
  · exact ⟨0, by decide, mem_singleton.mp h⟩
  · obtain ⟨m, hm, rfl⟩ := mem_map.mp h
    exact ⟨m, Nat.digits_lt_base (by decide) (mem_reverse.mp hm), rfl⟩

/-- The value of a list of digits, the last one first. -/
theorem valueFrom_reverse_map (digits : List ℕ) (h : ∀ d ∈ digits, d < 10) :
    valueFrom 10 0 (digits.reverse.map digit) = Nat.ofDigits 10 digits := by
  induction digits with
  | nil => rfl
  | cons d digits ih =>
    have hd := h d mem_cons_self
    have ih := ih fun d hd => h d (mem_cons_of_mem _ hd)
    unfold valueFrom at ih ⊢
    rw [reverse_cons, map_append, foldl_append, ih, Nat.ofDigits_cons]
    simp only [map_cons, map_nil, foldl_cons, foldl_nil, digitValue_digit hd, Option.getD_some]
    omega

theorem valueFrom_decimal : valueFrom 10 0 (decimal n) = n := by
  unfold decimal
  split
  next h =>
    subst h
    rfl
  next =>
    rw [valueFrom_reverse_map _ fun d hd => Nat.digits_lt_base (by decide) hd, Nat.ofDigits_digits]

end Digits
