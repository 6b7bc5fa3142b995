import PranaOS.AK.Assertions
import PranaOS.AK.StdLibExtras
import PranaOS.ToMathlib.Memory

/-!
# `AK/BitmapView.h`

A bitmap is a pointer to its bytes and a number of bits. The functions read the bytes one by one or
as 32-bit words, and do not always stop at the last byte that belongs to the bitmap; they are
modelled on the whole memory.

Lengths and positions are `size_t`. Only `set_range` and `count_in_range` can be asked for a range
whose end exceeds `2 ^ 32`; the other sums are bounded by the size of the bitmap.
-/

namespace AK

/-- `class BitmapView`: the pointer `m_data` and `m_size`. -/
structure BitmapView where
  data : ℕ
  size : ℕ
deriving DecidableEq, Repr

namespace BitmapView

variable (self : BitmapView)

/-- `size_in_bytes`. -/
def sizeInBytes : ℕ := (self.size + 7) / 8

/-- The bit with index `index`, without the bounds check of `get`. -/
def bit (self : BitmapView) (memory : Memory) (index : ℕ) : Bool := memory.bit self.data index

/-- `get`. -/
def get (memory : Memory) (index : ℕ) : Option Bool := do
  verify (index < self.size)
  return self.bit memory index

/-- `set`. -/
def set (memory : Memory) (index : ℕ) (value : Bool) : Option Memory := do
  verify (index < self.size)
  let address := self.data + index / 8
  let mask := 1#8 <<< (index % 8)
  return memory.store address (if value then memory address ||| mask else memory address &&& ~~~mask)

/-- `fill`. -/
def fill (self : BitmapView) (memory : Memory) (value : Bool) : Memory :=
  memory.fill self.data self.sizeInBytes (if value then 0xff else 0x00)

/-! ## Ranges of bits -/

/-- `bitmask_first_byte`. -/
def bitmaskFirstByte : List (BitVec 8) := [0xFF, 0xFE, 0xFC, 0xF8, 0xF0, 0xE0, 0xC0, 0x80]

/-- `bitmask_last_byte`. -/
def bitmaskLastByte : List (BitVec 8) := [0x0, 0x1, 0x3, 0x7, 0xF, 0x1F, 0x3F, 0x7F]

/-- The bits of `mask` in the byte at `address` are set to `value`. With `verifyFlip` they must all
have the other value. -/
def setMasked (value verifyFlip : Bool) (memory : Memory) (address : ℕ) (mask : BitVec 8) :
    Option Memory := do
  if verifyFlip then
    verify (memory address &&& mask = if value then 0 else mask)
  return memory.store address (if value then memory address ||| mask else memory address &&& ~~~mask)

/-- `set_range<VALUE, verify_that_all_bits_flip>`. -/
def setRange (value verifyFlip : Bool) (self : BitmapView) (memory : Memory) (start len : ℕ) :
    Option Memory := do
  let stop := (start + len) % 2 ^ 32
  verify (start < self.size)
  verify (stop ≤ self.size)
  if len = 0 then return memory
  let first := self.data + start / 8
  let last := self.data + stop / 8
  let firstMask := bitmaskFirstByte.getD (start % 8) 0
  let lastMask := bitmaskLastByte.getD (stop % 8) 0
  if first = last then
    setMasked value verifyFlip memory first (firstMask &&& lastMask)
  else
    let memory ← setMasked value verifyFlip memory first firstMask
    let memory ← setMasked value verifyFlip memory last lastMask
    return memory.fill (first + 1) (last - (first + 1)) (if value then 0xff else 0x00)

/-- `ptr & ~(sizeof(u32) - 1)`. -/
def alignDown (pointer : ℕ) : ℕ := pointer - pointer % 4

/-- `__builtin_popcount` and `__builtin_popcountl`. -/
def popcount {w : ℕ} (word : BitVec w) : ℕ := word.cpop.toNat

/-- The loops `while (first < limit) count += popcount(*first++)` over bytes, with `left` iterations
to go. -/
def countBytes (memory : Memory) : ℕ → ℕ → ℕ → ℕ
  | 0, _, count => count
  | left + 1, first, count => countBytes memory left (first + 1) (count + popcount (memory first))

/-- The loop `while (ptr32 < last32) count += popcount(*ptr32++)` over words, with `left` iterations
to go. -/
def countWords (memory : Memory) : ℕ → ℕ → ℕ → ℕ
  | 0, _, count => count
  | left + 1, pointer, count =>
    countWords memory left (pointer + 4) (count + popcount (memory.load32 pointer))

/-- The part of `count_in_range` that counts in the bytes from `first` to `last`, word by word where that
is possible. -/
def countBetween (memory : Memory) (first last count : ℕ) : ℕ :=
  let pointer := alignDown (first + 3)
  let pointer := if pointer > last then last else pointer
  let count := countBytes memory (pointer - first) first count
  let words := (alignDown last - pointer + 3) / 4
  let count := countWords memory words pointer count
  countBytes memory (last - (pointer + 4 * words)) (pointer + 4 * words) count

/-- The variable `count` of `count_in_range`: the set bits from `start` on and before `stop`. -/
def countSet (memory : Memory) (start stop : ℕ) : ℕ :=
  let first := self.data + start / 8
  let last := self.data + stop / 8
  let byte := memory first &&& bitmaskFirstByte.getD (start % 8) 0
  let lastMask := bitmaskLastByte.getD (stop % 8) 0
  if first = last then popcount (byte &&& lastMask)
  else
    let count := popcount byte + popcount (memory last &&& lastMask)
    if first + 1 < last then countBetween memory (first + 1) last count else count

/-- `count_in_range`. -/
def countInRange (memory : Memory) (start len : ℕ) (value : Bool) : Option ℕ := do
  let stop := (start + len) % 2 ^ 32
  verify (start < self.size)
  verify (stop ≤ self.size)
  if len = 0 then return 0
  let count := self.countSet memory start stop
  return if value then count else sub32 len count

/-! ## Search for one bit -/

/-- The loop `while (i < limit && p(i)) i++` with `limit - i` iterations left. -/
def advanceWhile (p : ℕ → Bool) : ℕ → ℕ → ℕ
  | i, 0 => i
  | i, left + 1 => if p i then advanceWhile p (i + 1) left else i

variable (value : Bool)

/-- The byte in which no bit has the value. -/
def byteWithout : BitVec 8 := if value then 0x00 else 0xff

/-- The index of the first bit in byte `i` that has the value, or of the bits in the word at `i` if
`w = 32`: `i * 8 + __builtin_ffs(word) - 1` for a word complemented unless `VALUE`. -/
def firstBitOf {w : ℕ} (value : Bool) (i : ℕ) (word : BitVec w) : Option ℕ := do
  let word := if value then word else ~~~word
  verify (word ≠ 0)
  return i * 8 + word.ctz.toNat

/-- The word in which no bit has the value. -/
def wordWithout : BitVec 32 := if value then 0x0 else 0xffffffff

/-- `while (ptr32 < end32 && *ptr32 == val32) ptr32++`. -/
def skipWords (memory : Memory) (pointer endWord : ℕ) : ℕ :=
  pointer + 4 * advanceWhile (fun k => memory.load32 (pointer + 4 * k) == wordWithout value) 0
    ((endWord - pointer) / 4)

/-- `while (i < limit && m_data[i] == byte) i++`. -/
def skipBytes (self : BitmapView) (memory : Memory) (i limit : ℕ) : ℕ :=
  advanceWhile (fun i => memory (self.data + i) == byteWithout value) i (limit - i)

/-- The part of the loop of `find_one_anywhere` that checks the bytes behind the last word. Returns
`.inr` of the new `end` if the loop is to be repeated from the beginning of the bitmap. -/
def findOneInBytes (self : BitmapView) (memory : Memory) (hint pointer : ℕ) :
    Option (Option ℕ ⊕ ℕ) := do
  let byteCount := self.size / 8
  verify (self.data ≤ pointer ∧ pointer - self.data ≤ byteCount)
  let i := skipBytes value self memory (pointer - self.data) byteCount
  if i = byteCount then
    if hint ≤ 8 then return .inl none
    else return .inr (alignDown (self.data + hint / 8))
  else
    return .inl (some (← firstBitOf value i (memory (self.data + i))))

/-- The part of the loop of `find_one_anywhere` that scans the words. `endPointer` is the variable
`end`. -/
def findOneInWords (self : BitmapView) (memory : Memory) (hint endPointer pointer : ℕ) :
    Option (Option ℕ ⊕ ℕ) := do
  let endWord := alignDown endPointer
  let pointer := skipWords value memory pointer endWord
  if pointer = endWord then findOneInBytes value self memory hint pointer
  else
    return .inl (some (← firstBitOf value (pointer - self.data) (memory.load32 pointer)))

/-- The body of the loop of `find_one_anywhere`. If the bytes of the bitmap are not aligned, those
before the first word are checked first. -/
def findOnePass (self : BitmapView) (memory : Memory) (hint endPointer : ℕ) :
    Option (Option ℕ ⊕ ℕ) := do
  let pointer := alignDown (self.data + hint / 8)
  if pointer < self.data then
    let pointer := pointer + 4
    let unaligned := pointer - self.data
    let i := skipBytes value self memory 0 unaligned
    if i < unaligned then
      return .inl (some (← firstBitOf value i (memory (self.data + i))))
    else
      findOneInWords value self memory hint endPointer pointer
  else
    findOneInWords value self memory hint endPointer pointer

/-- `find_one_anywhere<VALUE>`. The second pass starts with the hint 0, so there is no third one. -/
def findOneAnywhere (self : BitmapView) (memory : Memory) (hint : ℕ) :
    Option (Option ℕ) := do
  verify (hint < self.size)
  match ← findOnePass value self memory hint (self.data + self.size / 8) with
  | .inl result => return result
  | .inr endPointer =>
    match ← findOnePass value self memory 0 endPointer with
    | .inl result => return result
    | .inr _ => none

/-- `find_first<VALUE>`. -/
def findFirst (self : BitmapView) (memory : Memory) : Option (Option ℕ) := do
  let byteCount := self.size / 8
  let i := skipBytes value self memory 0 byteCount
  if i = byteCount then return none
  return some (← firstBitOf value i (memory (self.data + i)))

/-! ## Search for ranges of unset bits -/

/-- How a part of the search for a range ends: the function returns a range, or goes on with
`start_of_free_chunks` and `free_chunks`. -/
inductive Scan where
  | found (start length : ℕ)
  | next (start freeChunks : ℕ)
deriving DecidableEq, Repr

/-- `if (free_chunks == 0) *start_of_free_chunks = position`. -/
def startOfFreeChunks (start freeChunks position : ℕ) : ℕ :=
  if freeChunks = 0 then position else start

/-- `count_trailing_zeroes_32`. -/
def countTrailingZeroes32 (word : BitVec 32) : ℕ := word.ctz.toNat

/-- The loop over the bits of the bucket `bucketIndex`. -/
def scanBucket (bucketIndex minLength maxLength : ℕ) :
    ℕ → BitVec 32 → ℕ → ℕ → ℕ → Option Scan
  | 0, _, _, _, _ => none
  | fuel + 1, bucket, viewedBits, start, freeChunks =>
    if viewedBits < 32 then
      let start := startOfFreeChunks start freeChunks (bucketIndex * 32 + viewedBits)
      if bucket = 0 then
        scanBucket bucketIndex minLength maxLength fuel bucket 32 start
          (freeChunks + (32 - viewedBits))
      else
        let trailingZeroes := countTrailingZeroes32 bucket
        let bucket := bucket >>> trailingZeroes
        let freeChunks := freeChunks + trailingZeroes
        let viewedBits := viewedBits + trailingZeroes
        if freeChunks ≥ minLength then some (.found start (min freeChunks maxLength))
        else
          let trailingOnes := countTrailingZeroes32 (~~~bucket)
          scanBucket bucketIndex minLength maxLength fuel (bucket >>> trailingOnes)
            (viewedBits + trailingOnes) start 0
    else some (.next start freeChunks)

/-- The loop over the buckets, with `left` of them to go. -/
def scanBuckets (self : BitmapView) (memory : Memory) (minLength maxLength : ℕ) :
    ℕ → ℕ → ℕ → ℕ → ℕ → Option Scan
  | 0, _, _, start, freeChunks => some (.next start freeChunks)
  | left + 1, bucketIndex, startBucketBit, start, freeChunks =>
    let bucket := memory.load32 (self.data + 4 * bucketIndex)
    if bucket = 0xffffffff then
      if freeChunks ≥ minLength then some (.found start (min freeChunks maxLength))
      else scanBuckets self memory minLength maxLength left (bucketIndex + 1) 0 start 0
    else if bucket = 0 then
      let start := startOfFreeChunks start freeChunks (bucketIndex * 32)
      if freeChunks + 32 ≥ maxLength then some (.found start maxLength)
      else scanBuckets self memory minLength maxLength left (bucketIndex + 1) 0 start
        (freeChunks + 32)
    else
      match scanBucket bucketIndex minLength maxLength 33 (bucket >>> startBucketBit)
        startBucketBit start freeChunks with
      | none => none
      | some (.found start length) => some (.found start length)
      | some (.next start freeChunks) =>
        scanBuckets self memory minLength maxLength left (bucketIndex + 1) 0 start freeChunks

/-- The loop over the bits behind the last bucket, with `left` of them to go. -/
def scanTrailingBits (self : BitmapView) (memory : Memory) (minLength maxLength : ℕ) :
    ℕ → ℕ → ℕ → ℕ → Option Scan
  | 0, _, start, freeChunks => some (.next start freeChunks)
  | left + 1, index, start, freeChunks =>
    match self.get memory index with
    | none => none
    | some true => scanTrailingBits self memory minLength maxLength left (index + 1) start 0
    | some false =>
      let start := startOfFreeChunks start freeChunks index
      if freeChunks + 1 ≥ minLength then some (.found start (min (freeChunks + 1) maxLength))
      else scanTrailingBits self memory minLength maxLength left (index + 1) start (freeChunks + 1)

/-- `find_next_range_of_unset_bits`: the length of the range, and the new value of `from`. -/
def findNextRangeOfUnsetBits (memory : Memory) (start minLength maxLength : ℕ) :
    Option (Option ℕ × ℕ) :=
  if minLength > maxLength then some (none, start)
  else
    match scanBuckets self memory minLength maxLength (self.size / 32 - start / 32) (start / 32)
      (start % 32) start 0 with
    | none => none
    | some (.found start length) => some (some length, start)
    | some (.next start freeChunks) =>
      if freeChunks < minLength then
        match scanTrailingBits self memory minLength maxLength (self.size % 32)
          (self.size / 32 * 32) start freeChunks with
        | none => none
        | some (.found start length) => some (some length, start)
        | some (.next start _) => some (none, start)
      else some (some (min freeChunks maxLength), start)

/-- The loop of `find_longest_range_of_unset_bits`. Returns the start and the size of the longest
range found. -/
def findLongestLoop (self : BitmapView) (memory : Memory) (maxLength : ℕ) :
    ℕ → ℕ → ℕ → ℕ → Option (ℕ × ℕ)
  | 0, _, _, _ => none
  | fuel + 1, start, maxRegionStart, maxRegionSize =>
    match findNextRangeOfUnsetBits self memory start (maxRegionSize + 1) maxLength with
    | none => none
    | some (some length, start) =>
      findLongestLoop self memory maxLength fuel (start + length) start length
    | some (none, _) => some (maxRegionStart, maxRegionSize)

/-- `find_longest_range_of_unset_bits`: the start of the range, and `found_range_size`. Every range
found is longer than the one before, so that the loop ends within `size + 2` iterations. -/
def findLongestRangeOfUnsetBits (memory : Memory) (maxLength : ℕ) :
    Option (Option ℕ × ℕ) := do
  let (maxRegionStart, maxRegionSize) ←
    findLongestLoop self memory maxLength (self.size + 2) 0 0 0
  return (if maxRegionSize ≠ 0 then some maxRegionStart else none, maxRegionSize)

/-- `find_first_fit`. -/
def findFirstFit (memory : Memory) (minimumLength : ℕ) : Option (Option ℕ) := do
  let (length, start) ← findNextRangeOfUnsetBits self memory 0 minimumLength minimumLength
  return if length.isSome then some start else none

/-- `max_size`. -/
def maxSize : ℕ := 0xffffffff

/-- The loop of `find_best_fit`. `best` is `best_region_start` once a range is found. The loop need
not end if `minimumLength` is less than the 32 bits of a bucket, so its iterations are counted. -/
def findBestFitLoop (self : BitmapView) (memory : Memory) (minimumLength : ℕ) :
    ℕ → ℕ → Option ℕ → ℕ → Option (Option ℕ)
  | 0, _, _, _ => none
  | fuel + 1, start, best, bestRegionSize =>
    match findNextRangeOfUnsetBits self memory start minimumLength bestRegionSize with
    | none => none
    | some (some length, start) =>
      if bestRegionSize > length ∨ best.isNone then
        findBestFitLoop self memory minimumLength fuel (start + length) (some start) length
      else findBestFitLoop self memory minimumLength fuel (start + length) best bestRegionSize
    | some (none, _) => some best

/-- `find_best_fit`. -/
def findBestFit (memory : Memory) (minimumLength fuel : ℕ) :
    Option (Option ℕ) :=
  findBestFitLoop self memory minimumLength fuel 0 none maxSize

end BitmapView

end AK
