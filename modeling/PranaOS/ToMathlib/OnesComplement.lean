import Mathlib.Tactic

/-!
# One's complement sums

The sum of 16-bit words in which every carry is added at the other end. It is the plain sum modulo
`2 ^ 16 - 1`, and zero only if all the words are (`represents_sum`).
-/

namespace OnesComplement

/-- One's complement addition of 16-bit words. -/
def add (a b : ℕ) : ℕ := (a + b) / 2 ^ 16 + (a + b) % 2 ^ 16

/-- The one's complement sum of words, added to one that is there already. -/
def sumFrom (start : ℕ) (words : List ℕ) : ℕ := words.foldl add start

/-- The words of a string of bytes, the more significant byte first. A single byte at the end is
padded with zero. -/
def words : List UInt8 → List ℕ
  | [] => []
  | [high] => [high.toNat * 256]
  | high :: low :: rest => (high.toNat * 256 + low.toNat) :: words rest

/-- The plain sum of words. -/
def total : List ℕ → ℕ
  | [] => 0
  | word :: rest => word + total rest

/-- A 16-bit word stands for a number: it is congruent to it, and zero only for zero. -/
structure Represents (word n : ℕ) : Prop where
  le : word ≤ 65535
  modEq : word ≡ n [MOD 65535]
  eq_zero_iff : word = 0 ↔ n = 0

variable {a b n : ℕ} {xs ys : List ℕ} {front back : List UInt8}

theorem Represents.zero : Represents 0 0 := ⟨by decide, rfl, Iff.rfl⟩

theorem Represents.add (h : Represents a n) (hb : b ≤ 65535) : Represents (add a b) (n + b) := by
  obtain ⟨hle, hmod, hzero⟩ := h
  refine ⟨?_, ?_, ?_⟩ <;> unfold OnesComplement.add
  · omega
  · unfold Nat.ModEq at *
    omega
  · omega

/-- The word of all ones stands for the multiples of itself, except for zero. -/
theorem Represents.eq_ones_iff (h : Represents a n) : a = 65535 ↔ 65535 ∣ n ∧ n ≠ 0 := by
  obtain ⟨hle, hmod, hzero⟩ := h
  unfold Nat.ModEq at hmod
  omega

theorem Represents.sumFrom (h : Represents a n) (hxs : ∀ word ∈ xs, word ≤ 65535) :
    Represents (sumFrom a xs) (n + total xs) := by
  induction xs generalizing a n with
  | nil => exact h
  | cons word rest ih =>
    rw [total, ← Nat.add_assoc]
    exact ih (h.add (hxs word List.mem_cons_self)) fun other hmem => hxs other (List.mem_cons_of_mem _ hmem)

/-- What a one's complement sum stands for. -/
theorem represents_sum (hxs : ∀ word ∈ xs, word ≤ 65535) : Represents (sumFrom 0 xs) (total xs) := by
  simpa using Represents.zero.sumFrom hxs

theorem total_append : total (xs ++ ys) = total xs + total ys := by
  induction xs with
  | nil => simp [total]
  | cons word rest ih => rw [List.cons_append, total, total, ih, Nat.add_assoc]

theorem words_append (h : Even front.length) : words (front ++ back) = words front ++ words back := by
  fun_induction words front with
  | case1 => rfl
  | case2 => simp at h
  | case3 high low rest ih =>
    rw [List.cons_append, List.cons_append, words, ih (by simpa [Nat.even_add_one] using h)]
    rfl

theorem le_of_mem_words {bytes : List UInt8} : ∀ word ∈ words bytes, word ≤ 65535 := by
  fun_induction words bytes with
  | case1 => simp
  | case2 high =>
    have := high.toNat_lt
    simp only [List.mem_singleton, forall_eq]
    omega
  | case3 high low rest ih =>
    have := high.toNat_lt
    have := low.toNat_lt
    simp only [List.forall_mem_cons]
    exact ⟨by omega, ih⟩

end OnesComplement
