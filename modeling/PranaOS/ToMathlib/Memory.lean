import Mathlib.Tactic

/-!
# Byte-addressed memory

A memory gives a byte for every address. Words are stored with the least significant byte first,
so that the bits of a word are the bits of its bytes in the same order: `bit memory address i` is
bit `i` counted from `address`, whether it is reached through a byte or through a word
(`getLsbD_load32`).
-/

/-- The bytes of a memory, by address. -/
abbrev Memory := ℕ → BitVec 8

namespace Memory

variable (memory : Memory)

/-- Store one byte. -/
def store (address : ℕ) (byte : BitVec 8) : Memory :=
  Function.update memory address byte

/-- Store `byte` at `count` addresses from `address` on. -/
def fill (address count : ℕ) (byte : BitVec 8) : Memory :=
  fun a => if address ≤ a ∧ a < address + count then byte else memory a

/-- The four bytes from `address` on as a word. -/
def load32 (address : ℕ) : BitVec 32 :=
  memory (address + 3) ++ memory (address + 2) ++ memory (address + 1) ++ memory address

/-- Store a word in the four bytes from `address` on. -/
def store32 (address : ℕ) (word : BitVec 32) : Memory :=
  fun a => if address ≤ a ∧ a < address + 4 then word.extractLsb' (8 * (a - address)) 8
    else memory a

/-- Copy `count` bytes from `source` to `destination`. -/
def copy (destination source count : ℕ) : Memory := fun a =>
  if destination ≤ a ∧ a < destination + count then memory (source + (a - destination)) else memory a

/-- The bit with index `i` counted from `address`. -/
def bit (address i : ℕ) : Bool := (memory (address + i / 8)).getLsbD (i % 8)

variable {memory : Memory} {address i : ℕ} {byte : BitVec 8}

@[simp]
theorem store_self : memory.store address byte address = byte := Function.update_self ..

theorem store_of_ne {a : ℕ} (h : a ≠ address) : memory.store address byte a = memory a :=
  Function.update_of_ne h ..

/-- Bytes outside the destination are kept. -/
theorem copy_of_outside {destination source count a : ℕ}
    (h : a < destination ∨ destination + count ≤ a) :
    memory.copy destination source count a = memory a :=
  if_neg (by omega)

/-- The bits after a byte is stored. -/
theorem bit_store (k j : ℕ) : (memory.store (address + k) byte).bit address j =
    if j / 8 = k then byte.getLsbD (j % 8) else memory.bit address j := by
  unfold bit
  split_ifs with h
  · rw [h, store_self]
  · rw [store_of_ne (by omega)]

/-- The bits after bytes are filled. -/
theorem bit_fill (k count j : ℕ) : (memory.fill (address + k) count byte).bit address j =
    if k ≤ j / 8 ∧ j / 8 < k + count then byte.getLsbD (j % 8) else memory.bit address j := by
  unfold bit fill
  split_ifs with h h' h'
  · rfl
  · omega
  · omega
  · rfl

/-- Memories with the same bits have the same bytes. -/
theorem eq_of_bit_eq {memory' : Memory} {k : ℕ}
    (h : ∀ j, j / 8 = k → memory'.bit address j = memory.bit address j) :
    memory' (address + k) = memory (address + k) := by
  refine BitVec.eq_of_getLsbD_eq fun j hj => ?_
  have hbit := h (8 * k + j) (by omega)
  unfold bit at hbit
  rwa [show (8 * k + j) / 8 = k by omega, show (8 * k + j) % 8 = j by omega] at hbit

/-- Bits can be counted from a later byte. -/
theorem bit_add (k j : ℕ) : memory.bit (address + k) j = memory.bit address (8 * k + j) := by
  unfold bit
  rw [show address + k + j / 8 = address + (8 * k + j) / 8 by omega,
    show (8 * k + j) % 8 = j % 8 by omega]

/-- The bits of a byte. -/
theorem getLsbD_eq_bit {k j : ℕ} (hj : j < 8) :
    (memory (address + k)).getLsbD j = memory.bit address (8 * k + j) := by
  unfold bit
  rw [show (8 * k + j) / 8 = k by omega, show (8 * k + j) % 8 = j by omega]

/-- The bits of a word. -/
theorem getLsbD_load32 (hi : i < 32) : (memory.load32 address).getLsbD i = memory.bit address i := by
  unfold load32 bit
  simp only [BitVec.getLsbD_append]
  -- The byte that holds the bit is the one that the appended parts select.
  split_ifs with h0 h1 h2
  · rw [show address + i / 8 = address by omega, show i % 8 = i by omega]
  · rw [show address + i / 8 = address + 1 by omega, show i % 8 = i - 8 by omega]
  · rw [show address + i / 8 = address + 2 by omega, show i % 8 = i - 8 - 8 by omega]
  · rw [show address + i / 8 = address + 3 by omega, show i % 8 = i - 8 - 8 - 8 by omega]

/-- A stored word is loaded. -/
@[simp]
theorem load32_store32 (word : BitVec 32) :
    (memory.store32 address word).load32 address = word := by
  refine BitVec.eq_of_getLsbD_eq fun i hi => ?_
  rw [getLsbD_load32 hi, bit, store32, if_pos (by omega), BitVec.getLsbD_extractLsb']
  simp only [show i % 8 < 8 by omega, decide_true, Bool.true_and]
  rw [show 8 * (address + i / 8 - address) + i % 8 = i by omega]

/-- A word that does not touch the stored one is not changed. -/
theorem load32_congr {memory' : Memory}
    (h : ∀ a, address ≤ a → a < address + 4 → memory' a = memory a) :
    memory'.load32 address = memory.load32 address := by
  unfold load32
  rw [h address (by omega) (by omega), h (address + 1) (by omega) (by omega),
    h (address + 2) (by omega) (by omega), h (address + 3) (by omega) (by omega)]

end Memory
