import Mathlib.Data.Nat.Count
import PranaOS.AK.BitmapView.Bits

/-!
# Ranges of bits

`count_in_range` takes the first and the last byte of the range with a mask, and counts the bytes between
them one by one or as words. Every one of these counts is a count of bits of the bitmap (`numSet`), and
the parts of the range follow each other without a gap, so the result is right (`countInRange_eq`).

`set_range` sets the bits of the range and no other one. With `verify_that_all_bits_flip` it should fail if
some bit of the range has the value before, but the bytes between the first and the last one are not
looked at (`rangeCorrect_iff`).
-/

namespace AK

namespace BitmapView

open Nat BitVec

variable {self : BitmapView} {memory : Memory} {value verifyFlip : Bool} {start len : ℕ}

/-! ## Counts of bits -/

theorem count_congr {p q : ℕ → Prop} [DecidablePred p] [DecidablePred q] {n : ℕ}
    (h : ∀ k < n, p k ↔ q k) : Nat.count p n = Nat.count q n :=
  le_antisymm (count_mono_left fun k hk => (h k hk).mp)
    (count_mono_left fun k hk => (h k hk).mpr)

/-- What is counted is all from `low` on and before `high`. -/
theorem count_window {p : ℕ → Prop} [DecidablePred p] {low high n : ℕ} (hlow : low ≤ high) (hhigh : high ≤ n)
    (h : ∀ j < n, p j → low ≤ j ∧ j < high) :
    Nat.count p n = Nat.count (fun j => p (low + j)) (high - low) := by
  obtain ⟨rest, rfl⟩ := Nat.exists_eq_add_of_le hhigh
  have hbefore : Nat.count p low = 0 :=
    count_of_forall_not fun j hj hp => absurd (h j (by omega) hp).1 (not_le.mpr hj)
  have hbehind : Nat.count (fun j => p (high + j)) rest = 0 :=
    count_of_forall_not fun j hj hp => absurd (h (high + j) (by omega) hp).2 (by omega)
  obtain ⟨width, rfl⟩ := Nat.exists_eq_add_of_le hlow
  rw [count_add, hbehind, count_add, hbefore, Nat.zero_add, Nat.add_zero, Nat.add_sub_cancel_left]

/-- `popcount` counts the set bits of a word. -/
theorem popcount_eq_count {w : ℕ} (word : BitVec w) :
    popcount word = Nat.count (fun j => word.getLsbD j = true) w := by
  have hrec (n acc : ℕ) : word.cpopNatRec n acc = acc + Nat.count (fun j => word.getLsbD j = true) n := by
    induction n generalizing acc with
    | zero => simp
    | succ n ih =>
      rw [cpopNatRec_succ, ih, count_succ]
      cases word.getLsbD n with
      | false => simp
      | true =>
        simp only [Bool.toNat_true, if_true]
        omega
  rw [popcount, toNat_cpop, hrec, Nat.zero_add]

variable (self memory)

/-- The number of bits of the range that have the value. -/
def numBits (value : Bool) (start len : ℕ) : ℕ :=
  Nat.count (fun j => self.bit memory (start + j) = value) len

theorem numBits_add (value : Bool) (start a b : ℕ) :
    self.numBits memory value start (a + b) =
      self.numBits memory value start a + self.numBits memory value (start + a) b := by
  simp only [numBits, count_add, Nat.add_assoc]

/-- Every bit of the range has one of the two values. -/
theorem numBits_false_add_true (start len : ℕ) :
    self.numBits memory false start len + self.numBits memory true start len = len := by
  unfold numBits
  induction len with
  | zero => simp
  | succ len ih =>
    rw [count_succ, count_succ]
    cases self.bit memory (start + len) with
    | false =>
      simp only [if_true, Bool.false_eq_true, if_false]
      omega
    | true =>
      simp only [if_true, Bool.true_eq_false, if_false]
      omega

variable {self memory}
/-- The bits of a byte under a mask that keeps the bits from `low` on and before `high`. -/
theorem popcount_masked {k low high : ℕ} {mask : BitVec 8} (hlow : low ≤ high) (hhigh : high ≤ 8)
    (hmask : ∀ j < 8, mask.getLsbD j = decide (low ≤ j ∧ j < high)) :
    popcount (memory (self.data + k) &&& mask) =
      self.numBits memory true (8 * k + low) (high - low) := by
  rw [popcount_eq_count, count_window hlow hhigh]
  · refine count_congr fun j hj => ?_
    rw [getLsbD_and, hmask _ (by omega), decide_eq_true (by omega), Bool.and_true,
      Memory.getLsbD_eq_bit (by omega), bit, Nat.add_assoc]
  · intro j hj hbit
    rw [getLsbD_and, hmask j hj, Bool.and_eq_true, decide_eq_true_eq] at hbit
    exact hbit.2

theorem popcount_of_holds {w k : ℕ} {word : BitVec w} (h : self.Holds memory k word) :
    popcount word = self.numBits memory true (8 * k) w := by
  rw [popcount_eq_count]
  refine count_congr fun j hj => ?_
  rw [h j hj]

variable (self memory)

/-- The loop over bytes. -/
theorem countBytes_eq (left k count : ℕ) :
    countBytes memory left (self.data + k) count =
      count + self.numBits memory true (8 * k) (8 * left) := by
  induction left generalizing k count with
  | zero => simp [countBytes, numBits]
  | succ left ih =>
    rw [countBytes, popcount_of_holds (holds_byte k), Nat.add_assoc self.data k 1, ih,
      show 8 * (left + 1) = 8 + 8 * left by omega, numBits_add, Nat.add_assoc, Nat.mul_add]

/-- The loop over words. -/
theorem countWords_eq (left k count : ℕ) :
    countWords memory left (self.data + k) count =
      count + self.numBits memory true (8 * k) (32 * left) := by
  induction left generalizing k count with
  | zero => simp [countWords, numBits]
  | succ left ih =>
    rw [countWords, popcount_of_holds (holds_load32 k), Nat.add_assoc self.data k 4, ih,
      show 32 * (left + 1) = 32 + 32 * left by omega, numBits_add, Nat.add_assoc, Nat.mul_add]

/-- The bytes between the first and the last one: those in front of the first word, the words, and the rest. -/
theorem countBetween_eq {first last : ℕ} (count : ℕ)
    (hlt : first < last) :
    countBetween memory (self.data + first) (self.data + last) count =
      count + self.numBits memory true (8 * first) (8 * (last - first)) := by
  unfold countBetween
  simp only
  -- `pointer` is the first word, or the end if that comes first
  obtain ⟨pointer, hpointer, hlow, hhigh, hwords⟩ : ∃ pointer,
      (if alignDown (self.data + first + 3) > self.data + last then self.data + last
        else alignDown (self.data + first + 3)) = self.data + pointer ∧
      first ≤ pointer ∧ pointer ≤ last ∧
      pointer + 4 * ((alignDown (self.data + last) - (self.data + pointer) + 3) / 4) ≤ last := by
    unfold alignDown
    split
    next hbehind => exact ⟨last, rfl, hlt.le, le_rfl, by omega⟩
    next => exact ⟨self.data + first + 3 - (self.data + first + 3) % 4 - self.data, by omega, by omega,
      by omega, by omega⟩
  rw [hpointer]
  set words := (alignDown (self.data + last) - (self.data + pointer) + 3) / 4
  rw [Nat.add_sub_add_left, countBytes_eq, countWords_eq, Nat.add_assoc self.data,
    Nat.add_sub_add_left, countBytes_eq, Nat.add_assoc count, Nat.add_assoc count]
  have hsplit : 8 * (last - first) =
      8 * (pointer - first) + 32 * words + 8 * (last - (pointer + 4 * words)) := by omega
  rw [hsplit, numBits_add, numBits_add, show 8 * first + 8 * (pointer - first) = 8 * pointer by omega,
    show 8 * first + (8 * (pointer - first) + 32 * words) = 8 * (pointer + 4 * words) by omega]

variable {self memory}
/-- The range is inside one byte. -/
theorem popcount_inner {stop : ℕ} (hle : start ≤ stop) (hsame : start / 8 = stop / 8) :
    popcount (memory (self.data + start / 8) &&& bitmaskFirstByte.getD (start % 8) 0 &&&
      bitmaskLastByte.getD (stop % 8) 0) = self.numBits memory true start (stop - start) := by
  rw [BitVec.and_assoc, popcount_masked (show start % 8 ≤ stop % 8 by omega) (by omega),
    show 8 * (start / 8) + start % 8 = start by omega, show stop % 8 - start % 8 = stop - start by omega]
  intro j hj
  rw [getLsbD_and, getLsbD_bitmaskFirstByte (by omega) hj, getLsbD_bitmaskLastByte (by omega) hj,
    Bool.decide_and]

variable (self memory)

theorem popcount_first (start : ℕ) :
    popcount (memory (self.data + start / 8) &&& bitmaskFirstByte.getD (start % 8) 0) =
      self.numBits memory true start (8 * (start / 8 + 1) - start) := by
  rw [popcount_masked (show start % 8 ≤ 8 by omega) le_rfl,
    show 8 * (start / 8) + start % 8 = start by omega,
    show 8 - start % 8 = 8 * (start / 8 + 1) - start by omega]
  intro j hj
  rw [getLsbD_bitmaskFirstByte (by omega) hj, decide_eq_decide]
  omega

theorem popcount_last (stop : ℕ) :
    popcount (memory (self.data + stop / 8) &&& bitmaskLastByte.getD (stop % 8) 0) =
      self.numBits memory true (8 * (stop / 8)) (stop % 8) := by
  rw [popcount_masked (Nat.zero_le (stop % 8)) (by omega), Nat.add_zero, Nat.sub_zero]
  intro j hj
  rw [getLsbD_bitmaskLastByte (by omega) hj, decide_eq_decide]
  omega

/-- The parts of the range follow each other: the bits in the first byte, the bytes between, and the bits in
the last byte. -/
theorem countSet_eq {stop : ℕ} (hle : start ≤ stop) :
    self.countSet memory start stop = self.numBits memory true start (stop - start) := by
  unfold countSet
  simp only
  split
  next hsame => exact popcount_inner hle (by omega)
  next hne =>
    rw [popcount_first, popcount_last]
    split
    next hbetween =>
      rw [Nat.add_assoc, countBetween_eq self memory _ (by omega),
        show stop - start = 8 * (start / 8 + 1) - start + 8 * (stop / 8 - (start / 8 + 1)) + stop % 8 by
          omega,
        numBits_add, numBits_add, show start + (8 * (start / 8 + 1) - start) = 8 * (start / 8 + 1) by omega,
        show start + (8 * (start / 8 + 1) - start + 8 * (stop / 8 - (start / 8 + 1))) =
          8 * (stop / 8) by omega]
      omega
    next hnext =>
      rw [show stop - start = 8 * (start / 8 + 1) - start + stop % 8 by omega, numBits_add,
        show start + (8 * (start / 8 + 1) - start) = 8 * (stop / 8) by omega]

variable {self memory}
/-- `count_in_range` counts the bits of the range that have the value. -/
theorem countInRange_eq (hsize : self.size < 2 ^ 32) (hstart : start < self.size)
    (hend : start + len ≤ self.size) (value : Bool) :
    self.countInRange memory start len value = some (self.numBits memory value start len) := by
  simp only [countInRange, mod_eq_of_lt (show start + len < 2 ^ 32 by omega), hstart, hend, verify_true,
    Option.bind_eq_bind, Option.bind_some, Option.pure_def]
  split
  next hzero =>
    rw [hzero]
    rfl
  next =>
    rw [countSet_eq self memory (Nat.le_add_right start len), Nat.add_sub_cancel_left]
    have hboth := numBits_false_add_true self memory start len
    cases value with
    | true => rfl
    | false =>
      rw [if_neg Bool.false_ne_true, sub32_eq_sub (by omega) (by omega), Option.some.injEq]
      omega

/-! ## Setting a range -/

/-- What `set_range` is for: it sets the bits of the range and no other one, and with
`verify_that_all_bits_flip` it fails exactly if some bit of the range has the value before. -/
def SetsRange (value verifyFlip : Bool) (self : BitmapView) (memory : Memory) (start len : ℕ) : Prop :=
  match setRange value verifyFlip self memory start len with
  | some memory' => self.Writes value (fun i => start ≤ i ∧ i < start + len) memory memory' ∧
      (verifyFlip = true → ∀ i, start ≤ i → i < start + len → self.bit memory i = !value)
  | none => verifyFlip = true ∧ ∃ i, start ≤ i ∧ i < start + len ∧ self.bit memory i = value

/-- The byte of bit `i` is the first or the last one of the range. -/
def AtEnds (start len i : ℕ) : Prop := i / 8 = start / 8 ∨ i / 8 = (start + len) / 8

instance {i : ℕ} : Decidable (AtEnds start len i) := inferInstanceAs (Decidable (_ ∨ _))

/-- A bit that has the value already is noticed: if there is one in the bytes between the first and the last
one, there is also one in these two. -/
def Noticed (value : Bool) (self : BitmapView) (memory : Memory) (start len : ℕ) : Prop :=
  (∃ i < start + len, start ≤ i ∧ self.bit memory i = value) →
    ∃ i < start + len, start ≤ i ∧ AtEnds start len i ∧ self.bit memory i = value

instance : Decidable (Noticed value self memory start len) := inferInstanceAs (Decidable (_ → _))

/-- Without `verify_that_all_bits_flip`, `set_range` does what it should; with it, exactly if a bit that has
the value already is noticed. -/
theorem setsRange_iff_noticed (hsize : self.size < 2 ^ 32) (hstart : start < self.size)
    (hend : start + len ≤ self.size) :
    SetsRange value verifyFlip self memory start len ↔
      (verifyFlip = true → Noticed value self memory start len) := by
  have hpasses := @exists_setRange_iff self memory value verifyFlip start len (by omega)
  rw [and_iff_right hstart, and_iff_right hend] at hpasses
  unfold SetsRange
  cases hset : setRange value verifyFlip self memory start len with
  | some memory' =>
    have hwrites := (setRange_writes (by omega) hset).2.2
    have hflip := hpasses.mp ⟨memory', hset⟩
    simp only [hwrites, true_and]
    refine imp_congr_right fun hverify => ?_
    constructor
    · rintro hall ⟨i, hi, hlow, hbit⟩
      rw [hall i hlow hi] at hbit
      exact absurd hbit (by cases value <;> decide)
    · intro hnoticed i hlow hi
      by_contra hne
      obtain ⟨j, hj, hlow', hends, hbit⟩ := hnoticed ⟨i, hi, hlow, by simpa using hne⟩
      rw [hflip hverify j hlow' hj hends] at hbit
      exact absurd hbit (by cases value <;> decide)
  | none =>
    have hfails : ¬∃ memory', setRange value verifyFlip self memory start len = some memory' := by
      simp [hset]
    rw [hpasses] at hfails
    obtain ⟨hverify, i, hlow, hi, hends, hne⟩ : verifyFlip = true ∧ ∃ i, start ≤ i ∧ i < start + len ∧
        AtEnds start len i ∧ ¬self.bit memory i = !value := by
      simp only [not_forall, exists_prop] at hfails
      exact hfails
    have hbit : self.bit memory i = value := by simpa using hne
    exact iff_of_true ⟨hverify, i, hlow, hi, hbit⟩ fun _ _ => ⟨i, hi, hlow, hends, hbit⟩

/-- When `set_range` and `count_in_range` do what they should. -/
theorem rangeCorrect_iff (self : BitmapView) (memory : Memory) (start len : ℕ)
    (hsize : self.size < 2 ^ 32) (hstart : start < self.size) (hend : start + len ≤ self.size) :
    (∀ value verifyFlip, SetsRange value verifyFlip self memory start len ↔
      (verifyFlip = true → Noticed value self memory start len)) ∧
      ∀ value, self.countInRange memory start len value = some (self.numBits memory value start len) :=
  ⟨fun _ _ => setsRange_iff_noticed hsize hstart hend, countInRange_eq hsize hstart hend⟩

/-- The second of three bytes is set. -/
def middleByteSet : Memory := fun address => if address = 1 then 0xff#8 else 0#8

/-- In a range inside the first byte, a set bit is noticed; in the range of all 24 bits, 16 bits are
unset. -/
theorem rangeCorrect_iff_first_byte : SetsRange true true ⟨0, 24⟩ middleByteSet 0 5 ∧
    countInRange ⟨0, 24⟩ middleByteSet 0 24 false = some 16 := by
  have hfirst := rangeCorrect_iff ⟨0, 24⟩ middleByteSet 0 5 (by decide) (by decide) (by decide)
  have hall := rangeCorrect_iff ⟨0, 24⟩ middleByteSet 0 24 (by decide) (by decide) (by decide)
  refine ⟨(hfirst.1 true true).mpr fun _ => by decide +kernel, ?_⟩
  decide +kernel

/-- All 24 bits are set with `verify_that_all_bits_flip` although the second byte is set already. -/
theorem middle_byte_not_verified :
    (setRange true true ⟨0, 24⟩ middleByteSet 0 24).isSome = true ∧
      bit ⟨0, 24⟩ middleByteSet 8 = true ∧ ¬SetsRange true true ⟨0, 24⟩ middleByteSet 0 24 := by
  refine ⟨by decide +kernel, by decide +kernel, ?_⟩
  rw [setsRange_iff_noticed (by decide) (by decide) (by decide)]
  decide +kernel

end BitmapView

end AK
