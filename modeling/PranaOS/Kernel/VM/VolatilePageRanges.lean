import PranaOS.AK.Assertions
import PranaOS.AK.BinarySearch
import PranaOS.AK.StdLibExtras
import PranaOS.AK.Vector

/-!
# `VolatilePageRanges` of `Kernel/VM/PurgeablePageRanges`

The list of page ranges of a VM object that are volatile. Page indices and counts are `size_t`, so
their arithmetic is modulo `2 ^ 32`.

The loops of `add` and `remove` do not advance when they leave a range that is not empty, so they
need not end. Their definitions count the iterations down from `fuel` and return `none` when it is
used up: `some` result means that the call completes with that result within `fuel` iterations.
-/

namespace Kernel

open AK

/-- `struct VolatilePageRange`. -/
@[ext]
structure VolatilePageRange where
  base : ℕ
  count : ℕ
  wasPurged : Bool
deriving DecidableEq, Repr

namespace VolatilePageRange

/-- `base + count`. -/
def endIndex (self : VolatilePageRange) : ℕ := (self.base + self.count) % 2 ^ 32

/-- `is_empty`. -/
def isEmpty (self : VolatilePageRange) : Bool := self.count == 0

/-- `intersects`, with `||` where one expects `&&`. -/
def intersects (self other : VolatilePageRange) : Bool :=
  decide (other.base < self.endIndex) || decide (other.endIndex > self.base)

/-- `intersects_or_adjacent`, with `||` where one expects `&&`. -/
def intersectsOrAdjacent (self other : VolatilePageRange) : Bool :=
  decide (other.base ≤ self.endIndex) || decide (other.endIndex ≥ self.base)

/-- `contains`. -/
def contains (self other : VolatilePageRange) : Bool :=
  decide (self.base ≤ other.base) && decide (self.endIndex ≥ other.endIndex)

/-- `intersected`. -/
def intersected (self other : VolatilePageRange) : VolatilePageRange :=
  let b := max self.base other.base
  let e := min self.endIndex other.endIndex
  if b ≥ e then ⟨0, 0, false⟩ else ⟨b, e - b, self.wasPurged⟩

/-- `combine_intersecting_or_adjacent`. -/
def combineIntersectingOrAdjacent (self other : VolatilePageRange) : Option VolatilePageRange := do
  verify (self.intersectsOrAdjacent other)
  if self.base ≤ other.base then
    return ⟨self.base, (other.base - self.base + other.count) % 2 ^ 32,
      self.wasPurged || other.wasPurged⟩
  else
    return ⟨other.base, (self.base - other.base + self.count) % 2 ^ 32,
      self.wasPurged || other.wasPurged⟩

/-- `subtract_intersecting`. -/
def subtractIntersecting (self other : VolatilePageRange) : VolatilePageRange :=
  if ¬self.intersects other then self
  else if other.contains self then { self with count := 0 }
  else if self.base ≤ other.base then { self with count := other.base - self.base }
  else { self with base := other.endIndex, count := sub32 self.endIndex other.endIndex }

/-- `range_equals`. -/
def rangeEquals (self other : VolatilePageRange) : Bool :=
  self.base == other.base && self.count == other.count

/-- The comparator of the binary search in `add`. -/
def compareOrAdjacent (a b : VolatilePageRange) : ℤ :=
  if a.intersectsOrAdjacent b then 0 else toInt32 (sub32 a.base (sub32 b.endIndex 1))

/-- The comparator of the binary searches elsewhere. -/
def compareIntersecting (a b : VolatilePageRange) : ℤ :=
  if a.intersects b then 0 else toInt32 (sub32 a.base (sub32 b.endIndex 1))

end VolatilePageRange

/-- `class VolatilePageRanges`. -/
structure VolatilePageRanges where
  ranges : List VolatilePageRange
  totalRange : VolatilePageRange
deriving DecidableEq, Repr

namespace VolatilePageRanges

open VolatilePageRange

/-- The constructor of `VolatilePageRanges`. -/
def create (totalRange : VolatilePageRange) : VolatilePageRanges := ⟨[], totalRange⟩

/-- The loop of `add` that merges the entry at `index` with the ones after it. -/
def addLoop : ℕ → List VolatilePageRange → ℕ → Option (List VolatilePageRange)
  | 0, _, _ => none
  | fuel + 1, ranges, index =>
    match ranges[index]?, ranges[index + 1]? with
    | some existingRange, some nextRange =>
      if ¬nextRange.intersectsOrAdjacent existingRange then some ranges
      else if nextRange.wasPurged ≠ existingRange.wasPurged then
        let nextRange := nextRange.subtractIntersecting existingRange
        if nextRange.isEmpty then addLoop fuel (ranges.eraseIdx (index + 1)) index
        else addLoop fuel (ranges.set (index + 1) nextRange) index
      else do
        let existingRange ← existingRange.combineIntersectingOrAdjacent nextRange
        addLoop fuel ((ranges.set index existingRange).eraseIdx (index + 1)) index
    | _, _ => some ranges

/-- The part of `add` before the loop: the list and the index of the entry with the range added,
or `none` if the range is in the list already. -/
def addInsert (ranges : List VolatilePageRange) (addRange : VolatilePageRange) :
    Option (Option (List VolatilePageRange × ℕ)) :=
  match binarySearch (compareOrAdjacent addRange) ranges with
  | (some i, nearbyIndex) => do
    let existingRange ← ranges[i]?
    if existingRange = addRange then return none
    if existingRange.wasPurged ≠ addRange.wasPurged then
      let existingRange := existingRange.subtractIntersecting addRange
      if existingRange.isEmpty then
        return some (ranges.set i addRange, nearbyIndex)
      else
        return some ((ranges.set i existingRange).insertIdx (nearbyIndex + 1) addRange,
          nearbyIndex + 1)
    else
      let existingRange ← existingRange.combineIntersectingOrAdjacent addRange
      return some (ranges.set i existingRange, nearbyIndex)
  | (none, nearbyIndex) =>
    some (some (insertBeforeMatching ranges addRange (fun entry => entry.base ≥ addRange.endIndex)
      nearbyIndex))

variable (self : VolatilePageRanges)

/-- `add`. -/
def add (range : VolatilePageRange) (fuel : ℕ) :
    Option (Bool × VolatilePageRanges) := do
  let addRange := self.totalRange.intersected range
  if addRange.isEmpty then return (false, self)
  let addRange := { addRange with wasPurged := range.wasPurged }
  match ← addInsert self.ranges addRange with
  | none => return (false, self)
  | some (ranges, index) =>
    let ranges ← addLoop fuel ranges index
    return (true, { self with ranges })

/-- The loop of `remove`. The entry at `index` is tested against the range as it was passed, and
the clipped range is subtracted from it. -/
def removeLoop (range removeRange : VolatilePageRange) :
    ℕ → List VolatilePageRange → ℕ → Bool → Option (Bool × List VolatilePageRange)
  | 0, _, _, _ => none
  | fuel + 1, ranges, index, wasPurged =>
    match ranges[index]? with
    | none => some (wasPurged, ranges)
    | some existingRange =>
      if ¬existingRange.intersects range then some (wasPurged, ranges)
      else
        let wasPurged := wasPurged || existingRange.wasPurged
        let existingRange := existingRange.subtractIntersecting removeRange
        if existingRange.isEmpty then some (wasPurged, ranges.eraseIdx index)
        else removeLoop range removeRange fuel (ranges.set index existingRange) index wasPurged

/-- `remove`. Returns whether anything was removed, and the value of `was_purged`, which the
caller has set to `wasPurged`. -/
def remove (range : VolatilePageRange) (wasPurged : Bool) (fuel : ℕ) :
    Option (Bool × Bool × VolatilePageRanges) := do
  let removeRange := self.totalRange.intersected range
  if removeRange.isEmpty then return (false, wasPurged, self)
  match binarySearch (compareIntersecting removeRange) self.ranges with
  | (none, _) => return (false, wasPurged, self)
  | (some i, nearbyIndex) =>
    let existingRange ← self.ranges[i]?
    if existingRange.rangeEquals removeRange then
      return (true, existingRange.wasPurged,
        { self with ranges := self.ranges.eraseIdx nearbyIndex })
    else
      let (wasPurged, ranges) ←
        removeLoop range removeRange fuel self.ranges nearbyIndex existingRange.wasPurged
      return (true, wasPurged, { self with ranges })

/-- `intersects`. -/
def intersects (range : VolatilePageRange) : Bool :=
  (binarySearch (compareIntersecting range) self.ranges).1.isSome

/-- `contains`. -/
def contains (index : ℕ) : Bool := self.intersects ⟨index, 1, false⟩

/-- `is_empty`. -/
def isEmpty (self : VolatilePageRanges) : Bool := self.ranges.isEmpty

/-- `add_unchecked`, which appends the range as it was passed. -/
def addUnchecked (range : VolatilePageRange) : VolatilePageRanges :=
  if (self.totalRange.intersected range).isEmpty then self
  else { self with ranges := self.ranges ++ [range] }

/-- The ranges that `for_each_intersecting_range` passes to a function that always continues. -/
def intersectingRanges (range : VolatilePageRange) :
    Option (List VolatilePageRange) := do
  let r := self.totalRange.intersected range
  if r.isEmpty then return []
  match binarySearch (compareIntersecting r) self.ranges with
  | (none, _) => return []
  | (some i, nearbyIndex) =>
    let existingRange ← self.ranges[i]?
    if existingRange.rangeEquals r then return [r]
    verify (i = nearbyIndex)
    return ((self.ranges.drop nearbyIndex).takeWhile (·.intersects range)).map (·.intersected r)

end VolatilePageRanges

end Kernel
