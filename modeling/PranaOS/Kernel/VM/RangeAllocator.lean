import PranaOS.AK.BinarySearch
import PranaOS.AK.StdLibExtras
import PranaOS.AK.Vector
import PranaOS.Kernel.VM.Range
import PranaOS.ToMathlib.Run

/-!
# `Kernel/VM/RangeAllocator`

The allocator of virtual address ranges: a list of available ranges inside a total range, from
which ranges are carved and to which they are given back.

An operation returns `none` if a `VERIFY` fails. The results of the random number generator are
an argument of `allocateRandomized`.

## Main results

* `TakesRange`, `allocate*_takesRange`: what a successful allocation does to the list.
* `multiplicity_deallocate`: giving a range back adds it to the addresses covered, whatever the
  order of the list.
* `deallocate_separated`: the order of the list is kept if the entries that the binary search
  looks at end less than `2 ^ 31` away from the base of the range given back.
-/

namespace Kernel

open AK Tiling List Option

/-- `class RangeAllocator`. -/
structure RangeAllocator where
  availableRanges : List Range
  totalRange : Range
deriving DecidableEq, Repr

namespace RangeAllocator

/-- `initialize_with_range`, on an allocator fresh from its constructor. -/
def initializeWithRange (base size : ℕ) : RangeAllocator where
  availableRanges := [⟨base, size⟩]
  totalRange := ⟨base, size⟩

variable (self : RangeAllocator)

/-- `carve_at_index`. -/
def carveAtIndex (index : ℕ) (range : Range) : Option RangeAllocator := do
  let availableRange ← self.availableRanges[index]?
  match ← availableRange.carve range with
  | [] => none
  | [part] =>
    verify (self.totalRange.contains part)
    return { self with availableRanges := self.availableRanges.set index part }
  | part :: part' :: _ =>
    verify (self.totalRange.contains part)
    verify (self.totalRange.contains part')
    return { self with
      availableRanges := (self.availableRanges.set index part).insertIdx (index + 1) part' }

/-- The end of both allocation loops: remove the entry if it is the range to allocate, carve the
range out of it otherwise. -/
def takeAtIndex (index : ℕ) (availableRange allocatedRange : Range) :
    Option (Option Range × RangeAllocator) :=
  if availableRange = allocatedRange then
    some (some allocatedRange, { self with availableRanges := self.availableRanges.eraseIdx index })
  else do
    let carved ← self.carveAtIndex index allocatedRange
    return (some allocatedRange, carved)

/-- The loop of `allocate_anywhere` over the entries from index `i` on. -/
def allocateAnywhereLoop (self : RangeAllocator) (size alignment effectiveSize : ℕ) :
    ℕ → List Range → Option (Option Range × RangeAllocator)
  | _, [] => some (none, self)
  | i, availableRange :: rest =>
    if availableRange.size < effectiveSize + alignment then
      allocateAnywhereLoop self size alignment effectiveSize (i + 1) rest
    else do
      let initialBase := (availableRange.base + pageSize) % 2 ^ 32
      let alignedBase := roundUpToPowerOfTwo initialBase alignment
      let allocatedRange : Range := ⟨alignedBase, size⟩
      verify (self.totalRange.contains allocatedRange)
      self.takeAtIndex i availableRange allocatedRange

/-- `allocate_anywhere`. Each allocation is padded with a guard page on each side. -/
def allocateAnywhere (size alignment : ℕ) :
    Option (Option Range × RangeAllocator) :=
  if size = 0 then some (none, self)
  else do
    verify (size % pageSize = 0)
    verify (alignment % pageSize = 0)
    if size + pageSize * 2 ≥ 2 ^ 32 then return (none, self)
    let effectiveSize := size + pageSize * 2
    if effectiveSize + alignment ≥ 2 ^ 32 then return (none, self)
    self.allocateAnywhereLoop size alignment effectiveSize 0 self.availableRanges

/-- The loop of `allocate_specific` over the entries from index `i` on. -/
def allocateSpecificLoop (self : RangeAllocator) (allocatedRange : Range) :
    ℕ → List Range → Option (Option Range × RangeAllocator)
  | _, [] => some (none, self)
  | i, availableRange :: rest => do
    verify (self.totalRange.contains allocatedRange)
    if availableRange.contains allocatedRange then
      self.takeAtIndex i availableRange allocatedRange
    else allocateSpecificLoop self allocatedRange (i + 1) rest

/-- `allocate_specific`. -/
def allocateSpecific (base size : ℕ) :
    Option (Option Range × RangeAllocator) :=
  if size = 0 then some (none, self)
  else do
    verify (base % pageSize = 0)
    verify (size % pageSize = 0)
    self.allocateSpecificLoop ⟨base, size⟩ 0 self.availableRanges

/-- The attempts of `allocate_randomized`. The generator returns `random i` in attempt `i`. -/
def allocateRandomizedLoop (self : RangeAllocator) (size alignment : ℕ) (random : ℕ → UInt32) :
    ℕ → Option (Option Range × RangeAllocator)
  | 0 => self.allocateAnywhere size alignment
  | attempts + 1 =>
    let randomAddress := roundUpToPowerOfTwo (random attempts).toNat alignment
    if self.totalRange.contains ⟨randomAddress, size⟩ then do
      match ← self.allocateSpecific randomAddress size with
      | (some range, self') => return (some range, self')
      | (none, self') => allocateRandomizedLoop self' size alignment random attempts
    else allocateRandomizedLoop self size alignment random attempts

/-- `maximum_randomization_attempts`. -/
def maximumRandomizationAttempts : ℕ := 1000

/-- `allocate_randomized`. -/
def allocateRandomized (size alignment : ℕ) (random : ℕ → UInt32) :
    Option (Option Range × RangeAllocator) :=
  if size = 0 then some (none, self)
  else do
    verify (size % pageSize = 0)
    verify (alignment % pageSize = 0)
    self.allocateRandomizedLoop size alignment random maximumRandomizationAttempts

/-- The comparator that `deallocate` passes to `binary_search`: the difference of two `FlatPtr`,
converted to `int`. -/
def compareToEnd (range entry : Range) : ℤ := toInt32 (sub32 range.base entry.endAddr)

/-- The first half of `deallocate`: extend the entry that ends at the base of the range, or insert
the range. Returns the list and the index of the changed entry. -/
def insertRange (availableRanges : List Range) (range : Range) : List Range × ℕ :=
  match binarySearch (compareToEnd range) availableRanges with
  | (some i, nearbyIndex) =>
    (availableRanges.modify i fun entry => ⟨entry.base, (entry.size + range.size) % 2 ^ 32⟩,
      nearbyIndex)
  | (none, nearbyIndex) =>
    insertBeforeMatching availableRanges range (fun entry => entry.base ≥ range.endAddr)
      nearbyIndex

/-- The second half of `deallocate`: merge the changed entry with the next one if they touch. -/
def mergeWithNext (availableRanges : List Range) (insertedIndex : ℕ) : List Range :=
  match availableRanges[insertedIndex]?, availableRanges[insertedIndex + 1]? with
  | some insertedRange, some nextRange =>
    if insertedRange.endAddr = nextRange.base then
      (availableRanges.set insertedIndex
        ⟨insertedRange.base, (insertedRange.size + nextRange.size) % 2 ^ 32⟩).eraseIdx
          (insertedIndex + 1)
    else availableRanges
  | _, _ => availableRanges

/-- `deallocate`. -/
def deallocate (range : Range) : Option RangeAllocator := do
  verify (self.totalRange.contains range)
  verify (range.size ≠ 0)
  verify (range.size % pageSize = 0)
  verify (range.base < range.endAddr)
  verify (self.availableRanges ≠ [])
  let (availableRanges, insertedIndex) := insertRange self.availableRanges range
  return { self with availableRanges := mergeWithNext availableRanges insertedIndex }

/-! ## What an allocation does -/

/-- The bounds that the operations keep, whatever the order of the list. Only an allocator over an
empty total range has an empty entry. -/
structure Valid (allocator : RangeAllocator) : Prop where
  bounded : allocator.totalRange.base + allocator.totalRange.size ≤ 2 ^ 32
  size_lt : allocator.totalRange.size < 2 ^ 32
  inside : ∀ entry ∈ allocator.availableRanges, allocator.totalRange.Encloses entry
  positive : 0 < allocator.totalRange.size → ∀ entry ∈ allocator.availableRanges, 0 < entry.size

/-- `allocator'` results from `allocator` by cutting the non-empty `range` out of one available range. -/
structure TakesRange (allocator : RangeAllocator) (range : Range) (allocator' : RangeAllocator) : Prop where
  totalRange : allocator'.totalRange = allocator.totalRange
  pos : 0 < range.size
  cut : ∃ front entry back, allocator.availableRanges = front ++ entry :: back ∧
    entry.Encloses range ∧ allocator'.availableRanges = front ++ entry.remainder range ++ back

/-- An allocation fails and changes nothing, or it takes a range that satisfies `P`. -/
def AllocatesRange (P : Range → Prop)
    (result : Option Range × RangeAllocator) : Prop :=
  result = (none, self) ∨
    ∃ range self', result = (some range, self') ∧ P range ∧ TakesRange self range self'

section

variable {self self' : RangeAllocator} {range : Range} {result : Option Range × RangeAllocator}
variable {size alignment : ℕ}

theorem Valid.initializeWithRange {base : ℕ} (h : base + size ≤ 2 ^ 32) (hsize : size < 2 ^ 32) :
    Valid (initializeWithRange base size) where
  bounded := h
  size_lt := hsize
  inside := by simp [RangeAllocator.initializeWithRange, Range.Encloses]
  positive := by simp [RangeAllocator.initializeWithRange]

variable {entry : Range}

theorem takeAtIndex_takesRange {front back : List Range}
    (hsplit : self.availableRanges = front ++ entry :: back)
    (hentry : entry.Encloses range) (hbound : entry.base + entry.size < 2 ^ 32)
    (hpos : 0 < range.size) (h : self.takeAtIndex front.length entry range = some result) :
    ∃ self', result = (some range, self') ∧ TakesRange self range self' := by
  rw [takeAtIndex] at h
  split at h
  next heq =>
    simp only [some.injEq] at h
    refine ⟨_, h.symm, rfl, hpos, front, entry, back, hsplit, hentry, ?_⟩
    simp [hsplit, heq, Range.remainder]
  next =>
    obtain ⟨carved, hcarved, hresult⟩ := bind_eq_some_iff.mp h
    cases hresult
    rw [carveAtIndex, hsplit] at hcarved
    simp only [getElem?_length_append_cons, bind_eq_bind, bind_some] at hcarved
    obtain ⟨parts, hparts, hcarved⟩ := bind_eq_some_iff.mp hcarved
    have hremainder := Range.carve_eq_some hentry hbound hparts
    -- `carve` leaves at most two parts
    split at hcarved
    next => simp at hcarved
    next part =>
      obtain ⟨-, hcarved⟩ := verify_bind_eq_some.mp hcarved
      cases hcarved
      exact ⟨_, rfl, rfl, hpos, front, entry, back, hsplit, hentry, by
        simp [← hremainder]⟩
    next part part' rest =>
      obtain ⟨-, hcarved⟩ := verify_bind_eq_some.mp hcarved
      obtain ⟨-, hcarved⟩ := verify_bind_eq_some.mp hcarved
      cases hcarved
      have hrest : rest = [] := by
        have hlen := congrArg List.length hremainder
        simp only [Range.remainder, length_cons, length_append] at hlen
        rw [← length_eq_zero_iff]
        split at hlen <;> split at hlen <;> simp only [length_cons, length_nil] at hlen <;>
          omega
      exact ⟨_, rfl, rfl, hpos, front, entry, back, hsplit, hentry, by
        simp [← hremainder, hrest]⟩

variable (hvalid : self.Valid)

include hvalid

theorem Valid.entry_lt (hentry : entry ∈ self.availableRanges)
    (htotal : self.totalRange.base + self.totalRange.size < 2 ^ 32) :
    entry.base + entry.size < 2 ^ 32 :=
  (hvalid.inside entry hentry).2.trans_lt htotal

/-- The loop of `allocate_specific` takes the range from the first entry that contains it. -/
theorem allocateSpecificLoop_allocatesRange (hbase : range.base < 2 ^ 32)
    (hsize : range.size < 2 ^ 32) (hpos : 0 < range.size) (front : List Range) {rest : List Range} (hsplit : self.availableRanges = front ++ rest)
    (h : self.allocateSpecificLoop range front.length rest = some result) :
    AllocatesRange self (· = range) result := by
  induction rest generalizing front with
  | nil => exact .inl (some.inj h).symm
  | cons entry rest ih =>
    rw [allocateSpecificLoop, verify_bind_eq_some] at h
    obtain ⟨htotal, h⟩ := h
    have hentry : entry ∈ self.availableRanges := by simp [hsplit]
    obtain ⟨hend, -⟩ := (Range.contains_iff hvalid.bounded hbase hsize hpos).mp htotal
    have hlt := hvalid.entry_lt hentry hend
    split at h
    next hcontains =>
      obtain ⟨-, hencloses⟩ := (Range.contains_iff hlt.le hbase hsize hpos).mp hcontains
      obtain ⟨self', rfl, htakes⟩ := takeAtIndex_takesRange hsplit hencloses hlt hpos h
      exact .inr ⟨range, self', rfl, rfl, htakes⟩
    next =>
      refine ih (front ++ [entry]) (by simp [hsplit]) ?_
      simpa using h

theorem allocateSpecific_allocatesRange {base : ℕ} (hbase : base < 2 ^ 32)
    (hsize : size < 2 ^ 32) (h : self.allocateSpecific base size = some result) :
    AllocatesRange self (· = ⟨base, size⟩) result := by
  rw [allocateSpecific] at h
  split at h
  next => exact .inl (some.inj h).symm
  next hne =>
    simp only [verify_bind_eq_some] at h
    exact allocateSpecificLoop_allocatesRange hvalid hbase hsize (Nat.pos_of_ne_zero hne) [] rfl h.2.2

/-- `round_up_to_power_of_two` sends every address to `0` if the alignment is `0`. Then
`allocate_anywhere` asks for the range at address `0`, and this is inside the first entry that is
large enough only if that entry starts there. If the total range starts higher up, a `VERIFY`
fails. -/
def ZeroAlignmentOk (self : RangeAllocator) (size alignment : ℕ) : Prop :=
  alignment = 0 → self.totalRange.base = 0 →
    ∀ entry, self.availableRanges.find? (fun entry => size + pageSize * 2 ≤ entry.size) =
      some entry → entry.base = 0

/-- The loop of `allocate_anywhere` takes a range from the first entry that is large enough. -/
theorem allocateAnywhereLoop_allocatesRange (hpos : 0 < size)
    (hfit : size + pageSize * 2 + alignment < 2 ^ 32)
    (front : List Range) {rest : List Range} (hsplit : self.availableRanges = front ++ rest)
    (hzero : alignment = 0 → self.totalRange.base = 0 →
      ∀ entry, rest.find? (fun entry => size + pageSize * 2 ≤ entry.size) = some entry →
        entry.base = 0)
    (h : self.allocateAnywhereLoop size alignment (size + pageSize * 2) front.length rest =
      some result) :
    AllocatesRange self (fun range => range.size = size) result := by
  induction rest generalizing front with
  | nil => exact .inl (some.inj h).symm
  | cons entry rest ih =>
    rw [allocateAnywhereLoop] at h
    split at h
    next hsmall =>
      refine ih (front ++ [entry]) (by simp [hsplit]) (fun ha hb e he => ?_)
        (by simpa using h)
      refine hzero ha hb e ?_
      rw [find?_cons_of_neg (by simpa [ha] using hsmall)]
      exact he
    next hlarge =>
      obtain ⟨htotal, h⟩ := verify_bind_eq_some.mp h
      have hentry : entry ∈ self.availableRanges := by simp [hsplit]
      have hinside := hvalid.inside entry hentry
      have hbounded := hvalid.bounded
      have hpageSize : pageSize = 4096 := rfl
      obtain ⟨htotalBase, htotalEnd⟩ := hinside
      have hinitial : (entry.base + pageSize) % 2 ^ 32 = entry.base + pageSize :=
        Nat.mod_eq_of_lt (by omega)
      rw [hinitial] at htotal h
      have haligned : roundUpToPowerOfTwo (entry.base + pageSize) alignment < 2 ^ 32 :=
        Nat.mod_lt _ (by decide)
      obtain ⟨hend, hencloses⟩ :=
        (Range.contains_iff hbounded haligned (by simp only; omega) hpos).mp htotal
      have hcut : entry.Encloses ⟨roundUpToPowerOfTwo (entry.base + pageSize) alignment, size⟩ := by
        rcases Nat.eq_zero_or_pos alignment with rfl | halign
        · -- the range at address 0
          rw [roundUpToPowerOfTwo_zero] at hencloses ⊢
          have hbase := hzero rfl (Nat.le_zero.mp hencloses.1) entry
            (find?_cons_of_pos (by simpa using hlarge))
          exact ⟨hbase.le, by simp only; omega⟩
        · obtain ⟨hle, hlt⟩ := roundUpToPowerOfTwo_bounds
            (show 0 < entry.base + pageSize by omega) halign (by omega)
          exact ⟨by simp only; omega, by simp only; omega⟩
      obtain ⟨self', rfl, htakes⟩ := takeAtIndex_takesRange hsplit hcut (by omega) hpos h
      exact .inr ⟨_, self', rfl, rfl, htakes⟩

theorem allocateAnywhere_allocatesRange
    (hzero : self.ZeroAlignmentOk size alignment)
    (h : self.allocateAnywhere size alignment = some result) :
    AllocatesRange self (fun range => range.size = size) result := by
  rw [allocateAnywhere] at h
  split at h
  next => exact .inl (some.inj h).symm
  next hne =>
    simp only [verify_bind_eq_some] at h
    obtain ⟨-, -, h⟩ := h
    split at h
    · exact .inl (some.inj h).symm
    · split at h
      next => exact .inl (some.inj h).symm
      next hfit =>
        exact allocateAnywhereLoop_allocatesRange hvalid (Nat.pos_of_ne_zero hne)
          (not_le.mp hfit) [] rfl hzero h

/-- A failed attempt changes nothing, so the attempts end with a range inside the total range or
with `allocate_anywhere` on the allocator as it was. -/
theorem allocateRandomizedLoop_allocatesRange (hsize : size < 2 ^ 32)
    (hzero : self.ZeroAlignmentOk size alignment) {random : ℕ → UInt32} {attempts : ℕ}
    (h : self.allocateRandomizedLoop size alignment random attempts = some result) :
    AllocatesRange self (fun range => range.size = size) result := by
  induction attempts with
  | zero => exact allocateAnywhere_allocatesRange hvalid hzero h
  | succ attempts ih =>
    rw [allocateRandomizedLoop] at h
    split at h
    · obtain ⟨specific, hspecific, h⟩ := bind_eq_some_iff.mp h
      rcases allocateSpecific_allocatesRange hvalid (Nat.mod_lt _ (by decide)) hsize hspecific with
        rfl | ⟨range, self', rfl, rfl, htakes⟩
      · exact ih h
      · exact .inr ⟨_, self', (some.inj h).symm, rfl, htakes⟩
    · exact ih h

theorem allocateRandomized_allocatesRange (hsize : size < 2 ^ 32)
    (hzero : self.ZeroAlignmentOk size alignment) {random : ℕ → UInt32}
    (h : self.allocateRandomized size alignment random = some result) :
    AllocatesRange self (fun range => range.size = size) result := by
  rw [allocateRandomized] at h
  split at h
  · exact .inl (some.inj h).symm
  · simp only [verify_bind_eq_some] at h
    exact allocateRandomizedLoop_allocatesRange hvalid hsize hzero h.2.2

omit hvalid

/-! ## What an allocation keeps -/

/-- Consecutive entries are in order and do not touch. -/
def Separated (availableRanges : List Range) : Prop :=
  availableRanges.Pairwise fun a b => a.base + a.size < b.base

theorem TakesRange.valid (h : TakesRange self range self') (hvalid : self.Valid) :
    self'.Valid := by
  obtain ⟨htotal, -, front, entry, back, hsplit, hencloses, hcut⟩ := h
  -- an entry of the new list is an old entry or a part of the one that was cut
  have hmem : ∀ e ∈ self'.availableRanges, e ∈ self.availableRanges ∨
      entry.Encloses e ∧ 0 < e.size := by
    intro e he
    rw [hcut, mem_append, mem_append] at he
    rcases he with (he | he) | he
    · exact .inl (by simp [hsplit, he])
    · exact .inr (Range.of_mem_remainder hencloses he)
    · exact .inl (by simp [hsplit, he])
  have hentry := hvalid.inside entry (by simp [hsplit])
  refine ⟨htotal ▸ hvalid.bounded, htotal ▸ hvalid.size_lt, fun e he => ?_, fun hpos e he => ?_⟩
  · rw [htotal]
    rcases hmem e he with he | ⟨he, -⟩
    · exact hvalid.inside e he
    · exact hentry.trans he
  · rw [htotal] at hpos
    rcases hmem e he with he | ⟨-, he⟩
    · exact hvalid.positive hpos e he
    · exact he

theorem TakesRange.multiplicity (h : TakesRange self range self') (x : ℕ) :
    multiplicity Range.addresses self'.availableRanges x + multiplicity Range.addresses [range] x =
      multiplicity Range.addresses self.availableRanges x := by
  obtain ⟨-, -, front, entry, back, hsplit, hencloses, hcut⟩ := h
  have hremainder := Range.multiplicity_remainder hencloses x
  rw [hsplit, hcut]
  simp only [multiplicity_append, multiplicity_cons, multiplicity_nil] at hremainder ⊢
  omega

theorem separated_remainder (hpos : 0 < range.size) : Separated (entry.remainder range) := by
  unfold Separated Range.remainder
  split <;> split <;> simp
  omega

theorem TakesRange.separated (h : TakesRange self range self')
    (hsep : Separated self.availableRanges) : Separated self'.availableRanges := by
  obtain ⟨-, hpos, front, entry, back, hsplit, hencloses, hcut⟩ := h
  have hpart : ∀ e ∈ entry.remainder range, entry.Encloses e := fun e he =>
    (Range.of_mem_remainder hencloses he).1
  rw [Separated, hsplit, pairwise_append, pairwise_cons] at hsep
  obtain ⟨hfront, ⟨hentry, hback⟩, hcross⟩ := hsep
  rw [Separated, hcut, append_assoc, pairwise_append, pairwise_append]
  refine ⟨hfront, ⟨separated_remainder hpos, hback, fun a ha b hb => ?_⟩, fun a ha b hb => ?_⟩
  · exact (hpart a ha).2.trans_lt (hentry b hb)
  · rcases mem_append.mp hb with hb | hb
    · exact (hcross a ha entry mem_cons_self).trans_le (hpart b hb).1
    · exact hcross a ha b (mem_cons_of_mem _ hb)

/-! ## Giving a range back -/

/-- The first half of `deallocate`, whatever the order of the list. The changed entry stands
between `front` and `back`; it is the entry that ended at the base of the range, or the range
itself, inserted where the linear search from the nearby index has stopped. -/
inductive InsertsRange (availableRanges : List Range) (range : Range) :
    List Range → Range → List Range → Prop
  | extended {front back} (entry : Range) : availableRanges = front ++ entry :: back →
      entry.base + entry.size = range.base →
      InsertsRange availableRanges range front ⟨entry.base, entry.size + range.size⟩ back
  | inserted {front back} (nearbyIndex : ℕ) : availableRanges = front ++ back →
      binarySearch (compareToEnd range) availableRanges = (none, nearbyIndex) →
      (∀ entry ∈ front.drop nearbyIndex, entry.base < range.base + range.size) →
      (∀ entry, back.head? = some entry → range.base + range.size ≤ entry.base) →
      InsertsRange availableRanges range front range back

variable {availableRanges front back : List Range} {changed : Range}

theorem insertRange_insertsRange
    (hentry : ∀ entry ∈ availableRanges, entry.base + entry.size < 2 ^ 32)
    (hrange : range.base + range.size < 2 ^ 32) :
    ∃ front changed back, insertRange availableRanges range =
      (front ++ changed :: back, front.length) ∧
      InsertsRange availableRanges range front changed back := by
  rw [insertRange]
  split
  next i nearbyIndex hsearch =>
    obtain ⟨rfl, entry, hget, hcompare⟩ := binarySearch_found hsearch
    obtain ⟨front, back, rfl, rfl⟩ := exists_append_of_getElem?_eq_some hget
    have hlt := hentry entry (by simp)
    have hbase : range.base = entry.endAddr :=
      (toInt32_sub32_eq_zero (by omega) entry.endAddr_lt).mp hcompare
    rw [Range.endAddr_eq hlt] at hbase
    refine ⟨front, _, back, ?_, .extended entry rfl hbase.symm⟩
    rw [modify_length_append_cons, Nat.mod_eq_of_lt (by omega)]
  next nearbyIndex hsearch =>
    obtain ⟨front, back, rfl, hinsert, hskipped, hstop⟩ := insertBeforeMatching_eq_append
      availableRanges range (fun entry => entry.base ≥ range.endAddr) nearbyIndex
    refine ⟨front, range, back, hinsert, .inserted nearbyIndex rfl hsearch ?_ ?_⟩
    · simpa [Range.endAddr_eq hrange] using hskipped
    · simpa [Range.endAddr_eq hrange] using hstop

theorem InsertsRange.changed_bounds (h : InsertsRange availableRanges range front changed back) :
    changed.base ≤ range.base ∧ changed.base + changed.size = range.base + range.size := by
  cases h with
  | extended _ _ hend => constructor <;> simp only <;> omega
  | inserted => exact ⟨le_rfl, rfl⟩

theorem InsertsRange.multiplicity (h : InsertsRange availableRanges range front changed back)
    (x : ℕ) :
    multiplicity Range.addresses (front ++ changed :: back) x =
      multiplicity Range.addresses availableRanges x + multiplicity Range.addresses [range] x := by
  cases h with
  | extended _ hsplit hend =>
    have hjoin := Range.multiplicity_join hend x
    rw [hsplit]
    simp only [multiplicity_append, multiplicity_cons, multiplicity_nil] at hjoin ⊢
    omega
  | inserted _ hsplit =>
    rw [hsplit]
    simp only [multiplicity_append, multiplicity_cons, multiplicity_nil]
    omega

/-- What the second half of `deallocate` does. -/
theorem mergeWithNext_append (front : List Range) (hchanged : changed.base + changed.size < 2 ^ 32)
    (hback : ∀ entry ∈ back, entry.base + entry.size < 2 ^ 32) :
    (∃ next back', back = next :: back' ∧ changed.base + changed.size = next.base ∧
      mergeWithNext (front ++ changed :: back) front.length =
        front ++ ⟨changed.base, changed.size + next.size⟩ :: back') ∨
    (∀ next, back.head? = some next → changed.base + changed.size ≠ next.base) ∧
      mergeWithNext (front ++ changed :: back) front.length = front ++ changed :: back := by
  rw [mergeWithNext, getElem?_length_append_cons, getElem?_length_succ_append_cons]
  cases back with
  | nil => exact .inr ⟨by simp, rfl⟩
  | cons next back =>
    have hnext := hback next mem_cons_self
    simp only [head?_cons, some.injEq, forall_eq', Range.endAddr_eq hchanged]
    split
    next heq =>
      refine .inl ⟨next, back, rfl, heq, ?_⟩
      rw [set_length_append_cons, eraseIdx_length_succ_append_cons, Nat.mod_eq_of_lt (by omega)]
    next hne => exact .inr ⟨hne, rfl⟩

theorem InsertsRange.mem (h : InsertsRange availableRanges range front changed back)
    (hentry : entry ∈ front ∨ entry ∈ back) : entry ∈ availableRanges := by
  cases h with
  | extended _ hsplit | inserted _ hsplit => rcases hentry with h | h <;> simp [hsplit, h]

/-- The guards of `deallocate`, and the two halves of its effect on the list. -/
theorem deallocate_eq_some (hvalid : self.Valid) (hbase : range.base < 2 ^ 32)
    (hsize : range.size < 2 ^ 32) (h : self.deallocate range = some self') :
    0 < range.size ∧ self.totalRange.Encloses range ∧ self'.totalRange = self.totalRange ∧
      (∀ entry ∈ self.availableRanges, entry.base + entry.size < 2 ^ 32) ∧
      ∃ front changed back, InsertsRange self.availableRanges range front changed back ∧
        ((∃ next back', back = next :: back' ∧ changed.base + changed.size = next.base ∧
          self'.availableRanges = front ++ ⟨changed.base, changed.size + next.size⟩ :: back') ∨
        (∀ next, back.head? = some next → changed.base + changed.size ≠ next.base) ∧
          self'.availableRanges = front ++ changed :: back) := by
  simp only [deallocate, verify_bind_eq_some] at h
  obtain ⟨hcontains, hne, -, -, -, ⟨⟩⟩ := h
  have hpos := Nat.pos_of_ne_zero hne
  obtain ⟨htotal, hencloses⟩ := (Range.contains_iff hvalid.bounded hbase hsize hpos).mp hcontains
  have hlt : ∀ entry ∈ self.availableRanges, entry.base + entry.size < 2 ^ 32 :=
    fun _ hentry => hvalid.entry_lt hentry htotal
  obtain ⟨front, changed, back, hinsert, hinserts⟩ :=
    insertRange_insertsRange hlt (hencloses.2.trans_lt htotal)
  have hmerge := mergeWithNext_append front (hinserts.changed_bounds.2 ▸ hencloses.2.trans_lt htotal)
    fun entry hentry => hlt entry (hinserts.mem (.inr hentry))
  exact ⟨hpos, hencloses, rfl, hlt, front, changed, back, hinserts, by rw [hinsert]; exact hmerge⟩

/-- Giving a range back covers its addresses once more, whatever the order of the list. -/
theorem multiplicity_deallocate (hvalid : self.Valid) (hbase : range.base < 2 ^ 32)
    (hsize : range.size < 2 ^ 32) (h : self.deallocate range = some self') (x : ℕ) :
    multiplicity Range.addresses self'.availableRanges x =
      multiplicity Range.addresses self.availableRanges x +
        multiplicity Range.addresses [range] x := by
  obtain ⟨-, -, -, -, front, changed, back, hinserts,
    ⟨next, back', rfl, hnext, hresult⟩ | ⟨-, hresult⟩⟩ := deallocate_eq_some hvalid hbase hsize h
  · have hjoin := Range.multiplicity_join hnext x
    rw [hresult, ← hinserts.multiplicity x]
    simp only [multiplicity_append, multiplicity_cons, multiplicity_nil] at hjoin ⊢
    omega
  · rw [hresult, hinserts.multiplicity x]

theorem deallocate_valid (hvalid : self.Valid) (hbase : range.base < 2 ^ 32)
    (hsize : range.size < 2 ^ 32) (h : self.deallocate range = some self') : self'.Valid := by
  obtain ⟨hpos, hencloses, hsame, -, front, changed, back, hinserts, hmerge⟩ :=
    deallocate_eq_some hvalid hbase hsize h
  obtain ⟨hlow, hend⟩ := hinserts.changed_bounds
  have hchanged : self.totalRange.Encloses changed := by
    refine ⟨?_, hend ▸ hencloses.2⟩
    cases hinserts with
    | extended entry hsplit => exact (hvalid.inside entry (by simp [hsplit])).1
    | inserted => exact hencloses.1
  have hchangedPos : 0 < changed.size := by omega
  have htotalPos : 0 < self.totalRange.size := by
    have := hencloses.1
    have := hencloses.2
    omega
  -- an entry of the new list is an old entry, or lies in the total range and is not empty
  have hmem : ∀ e ∈ self'.availableRanges, self.totalRange.Encloses e ∧ 0 < e.size := by
    intro e he
    have hold : ∀ e ∈ self.availableRanges, self.totalRange.Encloses e ∧ 0 < e.size :=
      fun e he => ⟨hvalid.inside e he, hvalid.positive htotalPos e he⟩
    rcases hmerge with ⟨next, back', rfl, hnext, hresult⟩ | ⟨-, hresult⟩ <;>
      rw [hresult, mem_append, mem_cons] at he
    · obtain ⟨hnextInside, hnextPos⟩ := hold next (hinserts.mem (.inr mem_cons_self))
      rcases he with he | rfl | he
      · exact hold e (hinserts.mem (.inl he))
      · have := hnextInside.2
        refine ⟨⟨hchanged.1, ?_⟩, ?_⟩ <;> simp only <;> omega
      · exact hold e (hinserts.mem (.inr (mem_cons_of_mem _ he)))
    · rcases he with he | rfl | he
      · exact hold e (hinserts.mem (.inl he))
      · exact ⟨hchanged, hchangedPos⟩
      · exact hold e (hinserts.mem (.inr he))
  refine ⟨hsame ▸ hvalid.bounded, hsame ▸ hvalid.size_lt, fun e he => ?_,
    fun _ e he => (hmem e he).2⟩
  rw [hsame]
  exact (hmem e he).1

/-! ## The order of the list

The comparator of the binary search is the difference of two addresses squeezed into an `int`. It
has the right sign only for entries that end near the base of the range. -/

/-- The difference that `compareToEnd` stands for. -/
def exactCompareToEnd (range entry : Range) : ℤ :=
  (range.base : ℤ) - (entry.base + entry.size : ℕ)

/-- The entry ends less than `2 ^ 31` below the base of the range, or at most `2 ^ 31` above. -/
def Near (range entry : Range) : Prop :=
  (entry.base + entry.size ≤ range.base → range.base - (entry.base + entry.size) < 2 ^ 31) ∧
    (range.base < entry.base + entry.size → entry.base + entry.size - range.base ≤ 2 ^ 31)

instance (range entry : Range) : Decidable (Near range entry) :=
  inferInstanceAs (Decidable (_ ∧ _))

/-- The entries that a binary search with the exact difference looks at are near the range. -/
def SearchNear (availableRanges : List Range) (range : Range) : Prop :=
  ∀ entry ∈ binarySearchProbes (exactCompareToEnd range) availableRanges, Near range entry

theorem compareToEnd_of_near (hbase : range.base < 2 ^ 32)
    (hentry : entry.base + entry.size < 2 ^ 32) (hnear : Near range entry) :
    compareToEnd range entry = exactCompareToEnd range entry := by
  rw [compareToEnd, exactCompareToEnd, Range.endAddr_eq hentry]
  exact toInt32_sub32 hbase hentry hnear.1 hnear.2

/-- On an ordered list the search finds an entry that ends at the base of the range if there is
one, and otherwise all entries before the nearby index end below it. -/
theorem binarySearch_compareToEnd (hsep : Separated availableRanges)
    (hentry : ∀ entry ∈ availableRanges, entry.base + entry.size < 2 ^ 32)
    (hbase : range.base < 2 ^ 32) (hnear : SearchNear availableRanges range) :
    SearchResult (exactCompareToEnd range) availableRanges
      (binarySearch (compareToEnd range) availableRanges) := by
  have hprobe : ∀ entry ∈ binarySearchProbes (exactCompareToEnd range) availableRanges,
      SignType.sign (compareToEnd range entry) = SignType.sign (exactCompareToEnd range entry) := by
    intro entry hprobe
    rw [compareToEnd_of_near hbase (hentry entry (mem_of_mem_binarySearchProbes hprobe))
      (hnear entry hprobe)]
  rw [binarySearch_congr hprobe]
  refine binarySearch_spec (hsep.imp fun {a b} hlt => ?_)
  simp only [exactCompareToEnd]
  omega

variable (h : InsertsRange availableRanges range front changed back)

include h

/-- The changed entry stands at its place in the order of the list, if the range overlaps no
available range. -/
theorem InsertsRange.ordered
    (hsep : Separated availableRanges)
    (hentry : ∀ entry ∈ availableRanges, entry.base + entry.size < 2 ^ 32)
    (hbase : range.base < 2 ^ 32) (hnear : SearchNear availableRanges range)
    (hdisjoint : ∀ entry ∈ availableRanges, entry.base + entry.size ≤ range.base ∨
      range.base + range.size ≤ entry.base) :
    (∀ a ∈ front, a.base + a.size < changed.base) ∧
      ∀ b ∈ back, changed.base + changed.size ≤ b.base := by
  cases h with
  | extended entry hsplit hend =>
    rw [Separated, hsplit, pairwise_append, pairwise_cons] at hsep
    obtain ⟨-, ⟨hentryBack, -⟩, hcross⟩ := hsep
    refine ⟨fun a ha => hcross a ha entry mem_cons_self, fun b hb => ?_⟩
    have hb' := hentryBack b hb
    have := hdisjoint b (by simp [hsplit, hb])
    simp only
    omega
  | inserted nearbyIndex hsplit hsearch hskipped hstop =>
    have hresult := binarySearch_compareToEnd hsep hentry hbase hnear
    rw [hsearch] at hresult
    constructor
    · intro a ha
      obtain ⟨j, hj, rfl⟩ := mem_iff_getElem.mp ha
      have hget : availableRanges[j]? = some front[j] := by
        rw [hsplit, getElem?_append_left hj, getElem?_eq_getElem hj]
      have hmem := mem_of_getElem? hget
      rcases lt_or_ge j nearbyIndex with hlt | hge
      · have := hresult.before j hlt _ hget
        simp only [exactCompareToEnd] at this
        omega
      · -- an entry that the linear search has passed starts below the end of the range
        have hdrop : front[j] ∈ front.drop nearbyIndex := by
          refine mem_iff_getElem.mpr ⟨j - nearbyIndex, by simp; omega, ?_⟩
          rw [getElem_drop]
          congr 1
          omega
        have hlow := hskipped _ hdrop
        have hne := hresult.notFound rfl _ hmem
        have := hdisjoint _ hmem
        simp only [exactCompareToEnd] at hne
        omega
    · intro b hb
      cases back with
      | nil => simp at hb
      | cons next back =>
        have hnext := hstop next rfl
        rcases mem_cons.mp hb with rfl | hb
        · exact hnext
        · rw [Separated, hsplit, pairwise_append, pairwise_cons] at hsep
          have := hsep.2.1.1 b hb
          omega

theorem InsertsRange.separated
    (hsep : Separated availableRanges) :
    Separated front ∧ Separated back ∧ ∀ a ∈ front, ∀ b ∈ back, a.base + a.size < b.base := by
  cases h with
  | extended entry hsplit =>
    rw [Separated, hsplit, pairwise_append, pairwise_cons] at hsep
    exact ⟨hsep.1, hsep.2.1.2, fun a ha b hb => hsep.2.2 a ha b (mem_cons_of_mem _ hb)⟩
  | inserted _ hsplit =>
    rw [Separated, hsplit, pairwise_append] at hsep
    exact hsep

omit h

/-- Giving back a range that overlaps no available range keeps the list ordered and merged, if the
binary search does not meet an entry that is too far away. -/
theorem deallocate_separated (hvalid : self.Valid) (hsep : Separated self.availableRanges)
    (hbase : range.base < 2 ^ 32) (hsize : range.size < 2 ^ 32)
    (hnear : SearchNear self.availableRanges range)
    (hdisjoint : ∀ entry ∈ self.availableRanges, entry.base + entry.size ≤ range.base ∨
      range.base + range.size ≤ entry.base)
    (h : self.deallocate range = some self') : Separated self'.availableRanges := by
  obtain ⟨-, -, -, hentry, front, changed, back, hinserts, hmerge⟩ :=
    deallocate_eq_some hvalid hbase hsize h
  obtain ⟨hleft, hright⟩ := hinserts.ordered hsep hentry hbase hnear hdisjoint
  obtain ⟨hfront, hback, hcross⟩ := hinserts.separated hsep
  rw [Separated]
  rcases hmerge with ⟨next, back', rfl, hnext, hresult⟩ | ⟨hapart, hresult⟩
  · rw [Separated, pairwise_cons] at hback
    rw [hresult, pairwise_append, pairwise_cons]
    refine ⟨hfront, ⟨fun b hb => ?_, hback.2⟩, fun a ha b hb => ?_⟩
    · have := hback.1 b hb
      simp only
      omega
    · rcases mem_cons.mp hb with rfl | hb
      · exact hleft a ha
      · exact hcross a ha b (mem_cons_of_mem _ hb)
  · rw [hresult, pairwise_append, pairwise_cons]
    refine ⟨hfront, ⟨fun b hb => ?_, hback⟩, fun a ha b hb => ?_⟩
    · -- the next entry does not touch the changed one, and the others lie above the next
      cases back with
      | nil => simp at hb
      | cons next back =>
        have hne := hapart next rfl
        have hle := hright next mem_cons_self
        rcases mem_cons.mp hb with rfl | hb
        · omega
        · have := (pairwise_cons.mp hback).1 b hb
          omega
    · rcases mem_cons.mp hb with rfl | hb
      · exact hleft a ha
      · exact hcross a ha b hb

end

end RangeAllocator

end Kernel
