import Mathlib.Data.BitVec

/-!
# `AK/HashFunctions.h`

The mixing functions on `u32` that `HashTable` uses: `int_hash` hashes an integer, and `double_hash`
takes a hash to the next one of the probe sequence.
-/

namespace AK

/-- `int_hash`. -/
def intHash (key : BitVec 32) : BitVec 32 :=
  let key := key + ~~~(key <<< 15)
  let key := key ^^^ (key >>> 10)
  let key := key + (key <<< 3)
  let key := key ^^^ (key >>> 6)
  let key := key + ~~~(key <<< 11)
  key ^^^ (key >>> 16)

/-- `double_hash`. -/
def doubleHash (key : BitVec 32) : BitVec 32 :=
  let key := ~~~key + (key >>> 23)
  let key := key ^^^ (key <<< 12)
  let key := key ^^^ (key >>> 7)
  let key := key ^^^ (key <<< 2)
  key ^^^ (key >>> 20)

-- the values that `AK/Tests/TestHashFunctions.cpp` expects
example : intHash 42 = 3564735745 ∧ doubleHash 42 = 524450 ∧ doubleHash 0 = 12384 := by decide

/-- A hash that is its own successor in the probe sequence. -/
theorem doubleHash_fixed : doubleHash 1711463637 = 1711463637 := by decide

end AK
