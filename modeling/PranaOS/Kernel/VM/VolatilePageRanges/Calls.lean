import PranaOS.Kernel.VM.VolatilePageRanges
import PranaOS.ToMathlib.Tiling

/-!
# What `add` and `remove` do to short lists of volatile ranges

`intersects` and `intersects_or_adjacent` are true of any two ranges that are not empty
(`Fits.intersects`), so a search always stops at its first probe, and the entry found there is
combined with, or reduced by, ranges that do not touch it. On a list of at most two entries that
covers the whole total range (`Good`) this determines the result of every call,
and `AddOk` is what an `add` needs for its result to be right.
-/

namespace Kernel

open AK

namespace VolatilePageRange

/-- The pages of a range. -/
def pages (self : VolatilePageRange) : Set ℕ := Set.Ico self.base (self.base + self.count)

instance (self : VolatilePageRange) : DecidablePred (· ∈ self.pages) :=
  fun p => inferInstanceAs (Decidable (p ∈ Set.Ico _ _))

@[simp]
theorem mem_pages {self : VolatilePageRange} {p : ℕ} :
    p ∈ self.pages ↔ self.base ≤ p ∧ p < self.base + self.count := Iff.rfl

/-- A range that is not empty and does not wrap. -/
structure Fits (range : VolatilePageRange) : Prop where
  pos : 0 < range.count
  lt : range.base + range.count < 2 ^ 32

variable {a b : VolatilePageRange}

theorem Fits.endIndex (h : a.Fits) : a.endIndex = a.base + a.count := Nat.mod_eq_of_lt h.lt

theorem Fits.isEmpty (h : a.Fits) : a.isEmpty = false := by
  simpa [VolatilePageRange.isEmpty] using h.pos.ne'

/-- Any two ranges are found to intersect. -/
theorem Fits.intersects (ha : a.Fits) (hb : b.Fits) : a.intersects b = true := by
  have := hb.pos
  simp only [VolatilePageRange.intersects, ha.endIndex, hb.endIndex, Bool.or_eq_true,
    decide_eq_true_eq]
  omega

/-- Any two ranges are found to intersect or to be adjacent. -/
theorem Fits.intersectsOrAdjacent (ha : a.Fits) (hb : b.Fits) :
    a.intersectsOrAdjacent b = true := by
  simp only [VolatilePageRange.intersectsOrAdjacent, ha.endIndex, hb.endIndex, Bool.or_eq_true,
    decide_eq_true_eq]
  omega

/-- Subtracting a range that starts at or above an entry cuts the entry off at its base. -/
theorem Fits.subtractIntersecting (ha : a.Fits) (hb : b.Fits) (hle : a.base ≤ b.base) :
    a.subtractIntersecting b = { a with count := b.base - a.base } := by
  have hbounds : b.contains a = true → b.base - a.base = 0 := by
    simp only [contains, Bool.and_eq_true, decide_eq_true_eq]
    omega
  unfold VolatilePageRange.subtractIntersecting
  rw [if_neg (by simp [ha.intersects hb]), if_pos hle]
  split
  next h => rw [hbounds h]
  next => rfl

/-- Two ranges are combined into one that starts where the first of them starts and ends where the
other one ends. -/
theorem Fits.combineIntersectingOrAdjacent (ha : a.Fits) (hb : b.Fits) :
    a.combineIntersectingOrAdjacent b = some (if a.base ≤ b.base then
        ⟨a.base, b.base + b.count - a.base, a.wasPurged || b.wasPurged⟩
      else ⟨b.base, a.base + a.count - b.base, a.wasPurged || b.wasPurged⟩) := by
  have := ha.lt
  have := hb.lt
  unfold VolatilePageRange.combineIntersectingOrAdjacent
  rw [verify_bind_eq_some]
  refine ⟨ha.intersectsOrAdjacent hb, ?_⟩
  split
  all_goals
    simp only [Option.pure_def, Option.some.injEq, mk.injEq, and_true, true_and]
    omega

/-- A range that is not empty inside a total range that does not wrap. -/
structure Within (range total : VolatilePageRange) : Prop where
  fits : range.Fits
  total_fits : total.Fits
  base_le : total.base ≤ range.base
  end_le : range.base + range.count ≤ total.base + total.count

/-- What clipping to the total range gives, if anything is left. -/
theorem intersected_spec {total range : VolatilePageRange} (hbase : total.base < 2 ^ 32)
    (hcount : total.count < 2 ^ 32) (hbase' : range.base < 2 ^ 32) (hcount' : range.count < 2 ^ 32)
    (h : (total.intersected range).isEmpty = false) :
    (total.intersected range).Within total ∧ range.Fits := by
  have hne : ¬max total.base range.base ≥ min total.endIndex range.endIndex := by
    intro hge
    simp [intersected, hge, VolatilePageRange.isEmpty] at h
  have hrange : total.intersected range = ⟨max total.base range.base,
      min total.endIndex range.endIndex - max total.base range.base, total.wasPurged⟩ := by
    simp [intersected, hne]
  rw [hrange]
  unfold endIndex at hne ⊢
  refine ⟨⟨⟨?_, ?_⟩, ⟨by omega, by omega⟩, Nat.le_max_left _ _, ?_⟩, ⟨by omega, by omega⟩⟩
  all_goals
    simp only
    omega

/-- A range that starts and ends where the total range does. -/
theorem eq_total {range total : VolatilePageRange} (hbase : range.base = total.base)
    (hend : range.base + range.count = total.base + total.count) :
    range = ⟨total.base, total.count, range.wasPurged⟩ := by
  ext
  · exact hbase
  · show range.count = total.count
    omega
  · rfl

end VolatilePageRange

namespace VolatilePageRanges

open VolatilePageRange

/-! ## The loops on at most two entries -/

section Calls

variable {total range addRange removeRange entry : VolatilePageRange}
variable {rest ranges : List VolatilePageRange}

/-- On a list of at most two entries the search stops at the first one. -/
theorem binarySearch_first {compare : VolatilePageRange → ℤ} (hzero : compare entry = 0)
    (hlen : rest.length ≤ 1) : binarySearch compare (entry :: rest) = (some 0, 0) := by
  have hmiddle : ((entry :: rest).length - 1) / 2 = 0 := by simp only [List.length_cons]; omega
  rw [binarySearch_middle (by rw [hmiddle, List.getElem?_cons_zero]) hzero, hmiddle]

/-- The entry with the range added: it replaces the first entry, follows what is left of it, or is
combined with it. -/
theorem addInsert_cons (rest : List VolatilePageRange) (hentry : entry.Fits) (hadd : addRange.Fits)
    (hbase : entry.base ≤ addRange.base) (hlen : rest.length ≤ 1) :
    addInsert (entry :: rest) addRange =
      if entry = addRange then some none
      else if entry.wasPurged = addRange.wasPurged then
        some (some (⟨entry.base, addRange.base + addRange.count - entry.base, entry.wasPurged⟩ ::
          rest, 0))
      else if addRange.base = entry.base then some (some (addRange :: rest, 0))
      else some (some ({ entry with count := addRange.base - entry.base } :: addRange :: rest, 1)) := by
  have hcompare : compareOrAdjacent addRange entry = 0 := if_pos (hadd.intersectsOrAdjacent hentry)
  rw [addInsert, binarySearch_first hcompare hlen]
  simp only [List.getElem?_cons_zero, Option.bind_eq_bind, Option.bind_some, Option.pure_def,
    hentry.subtractIntersecting hadd hbase, hentry.combineIntersectingOrAdjacent hadd, if_pos hbase,
    VolatilePageRange.isEmpty, List.set_cons_zero]
  by_cases heq : entry = addRange
  · rw [if_pos heq, if_pos heq]
  · rw [if_neg heq, if_neg heq]
    by_cases hpurged : entry.wasPurged = addRange.wasPurged
    · simp [hpurged]
    · rw [if_pos hpurged, if_neg hpurged]
      by_cases hsame : addRange.base = entry.base
      · simp [hsame]
      · have hne : addRange.base - entry.base ≠ 0 := by omega
        simp [hsame, hne]

/-- The loop of `add` changes nothing behind the last entry. -/
theorem addLoop_last {index : ℕ} (hlen : ranges.length ≤ index + 1) (fuel : ℕ) :
    addLoop fuel ranges index = if fuel < 1 then none else some ranges := by
  cases fuel with
  | zero => rfl
  | succ fuel =>
    rw [addLoop, List.getElem?_eq_none hlen, if_neg (by omega)]
    cases ranges[index]? <;> rfl

variable {next : VolatilePageRange}

/-- The loop of `add` combines the changed entry with a last entry of the same kind. -/
theorem addLoop_combine (front : List VolatilePageRange) {combined : VolatilePageRange}
    (hentry : entry.Fits) (hnext : next.Fits) (hpurged : entry.wasPurged = next.wasPurged)
    (hcombined : entry.combineIntersectingOrAdjacent next = some combined) (fuel : ℕ) :
    addLoop fuel (front ++ [entry, next]) front.length =
      if fuel < 2 then none else some (front ++ [combined]) := by
  cases fuel with
  | zero => rfl
  | succ fuel =>
    rw [addLoop]
    simp only [List.getElem?_length_append_cons, List.getElem?_length_succ_append_cons,
      List.head?_cons, hnext.intersectsOrAdjacent hentry, not_true, if_false, hpurged, ne_eq,
      Option.bind_eq_bind, hcombined, Option.bind_some, List.set_length_append_cons,
      List.eraseIdx_length_succ_append_cons]
    rw [addLoop_last (by simp)]
    simp

section

variable (hentry : entry.Fits) (hnext : next.Fits) (hlt : entry.base < next.base)

include hentry hnext hlt

/-- Subtracting an entry from a later one: nothing is left, or the part above it. -/
theorem subtractIntersecting_later : next.subtractIntersecting entry =
      if next.base + next.count ≤ entry.base + entry.count then { next with count := 0 }
      else { next with
        base := entry.base + entry.count
        count := next.base + next.count - (entry.base + entry.count) } := by
  have := hnext.lt
  unfold subtractIntersecting
  rw [if_neg (by simp [hnext.intersects hentry])]
  simp only [VolatilePageRange.contains, hentry.endIndex, hnext.endIndex, hlt.le, decide_true,
    Bool.true_and, ge_iff_le, decide_eq_true_eq]
  split
  · rfl
  · rw [if_neg (by omega)]
    simp only [VolatilePageRange.mk.injEq, true_and, and_true, sub32]
    omega

/-- If the entries are of different kinds and the first one does not reach the end of the second,
the loop of `add` reduces the second one to the part above the first over and over. -/
theorem addLoop_hangs (hpurged : next.wasPurged ≠ entry.wasPurged)
    (hend : entry.base + entry.count < next.base + next.count) (fuel : ℕ) :
    addLoop fuel [entry, next] 0 = none := by
  induction fuel generalizing next with
  | zero => rfl
  | succ fuel ih =>
    have := hentry.pos
    have := hnext.lt
    rw [addLoop]
    simp only [List.getElem?_cons_zero, List.getElem?_cons_succ,
      hnext.intersectsOrAdjacent hentry, not_true, if_false, hpurged, ne_eq, not_false_eq_true,
      if_true, subtractIntersecting_later hentry hnext hlt, if_neg (not_le.mpr hend),
      List.set_cons_succ, List.set_cons_zero]
    rw [if_neg]
    · refine ih ⟨?_, ?_⟩ ?_ hpurged ?_ <;> simp only <;> omega
    · simp only [VolatilePageRange.isEmpty, beq_iff_eq]
      omega

/-- If the entries are of different kinds and the first one reaches the end of the second, the
loop of `add` removes the second. -/
theorem addLoop_absorbs (hpurged : next.wasPurged ≠ entry.wasPurged)
    (hend : next.base + next.count ≤ entry.base + entry.count) (fuel : ℕ) :
    addLoop fuel [entry, next] 0 = if fuel < 2 then none else some [entry] := by
  cases fuel with
  | zero => rfl
  | succ fuel =>
    rw [addLoop]
    simp only [List.getElem?_cons_zero, List.getElem?_cons_succ,
      hnext.intersectsOrAdjacent hentry, not_true, if_false, hpurged, ne_eq, not_false_eq_true,
      if_true, subtractIntersecting_later hentry hnext hlt, if_pos hend,
      VolatilePageRange.isEmpty, beq_self_eq_true, List.eraseIdx_cons_succ,
      List.eraseIdx_cons_zero]
    rw [addLoop_last (by simp)]
    simp

end

/-- The loop of `remove` removes an entry that starts where the range starts, however long it is. An
entry that starts below is cut off at the base of the range over and over. -/
theorem removeLoop_eq (hentry : entry.Fits) (hrange : range.Fits) (hremove : removeRange.Fits)
    (hle : entry.base ≤ removeRange.base) (wasPurged : Bool) (fuel : ℕ) :
    removeLoop range removeRange fuel (entry :: rest) 0 wasPurged =
      if 0 < fuel ∧ entry.base = removeRange.base then some (wasPurged || entry.wasPurged, rest)
      else none := by
  induction fuel generalizing entry wasPurged with
  | zero => simp [removeLoop]
  | succ fuel ih =>
    have := hremove.lt
    rw [removeLoop]
    simp only [List.getElem?_cons_zero, hentry.intersects hrange, not_true, if_false, Nat.succ_pos,
      true_and, hentry.subtractIntersecting hremove hle, VolatilePageRange.isEmpty, beq_iff_eq,
      List.set_cons_zero, List.eraseIdx_cons_zero]
    by_cases heq : entry.base = removeRange.base
    · rw [if_pos (by omega), if_pos heq]
    · have hcut : Fits ⟨entry.base, removeRange.base - entry.base, entry.wasPurged⟩ := by
        constructor <;> simp only <;> omega
      rw [if_neg (by omega), if_neg heq, ih hcut hle, if_neg fun h => heq h.2]

end Calls

/-! ## The results of the calls -/

variable {total range entry : VolatilePageRange} {ranges : List VolatilePageRange}

/-- What `add` does to the list with a range that is not empty. -/
def addTo (fuel : ℕ) (ranges : List VolatilePageRange) (addRange : VolatilePageRange) :
    Option (List VolatilePageRange) := do
  match ← addInsert ranges addRange with
  | none => return ranges
  | some (inserted, index) => addLoop fuel inserted index

/-- An `add` that is given two iterations of its loop leads to `final`, and no `add` that completes
leads to anything else. -/
def AddsTo (ranges : List VolatilePageRange) (addRange : VolatilePageRange)
    (final : List VolatilePageRange) : Prop :=
  ∃ bound ≤ 2, ∀ fuel, addTo fuel ranges addRange = if fuel < bound then none else some final

section Results

variable {fuel : ℕ} {result final inserted : List VolatilePageRange} {addRange : VolatilePageRange}
variable {index : ℕ} {self : VolatilePageRanges}

theorem AddsTo.eq (h : AddsTo ranges addRange final)
    (hadd : addTo fuel ranges addRange = some result) : result = final := by
  obtain ⟨bound, -, h⟩ := h
  rw [h, Option.ite_none_left_eq_some, Option.some.injEq] at hadd
  exact hadd.2.symm

theorem AddsTo.addTo_eq (h : AddsTo ranges addRange final) (hfuel : 2 ≤ fuel) :
    addTo fuel ranges addRange = some final := by
  obtain ⟨bound, hbound, h⟩ := h
  rw [h, if_neg (by omega)]

theorem AddsTo.of_none (hinsert : addInsert ranges addRange = some none) :
    AddsTo ranges addRange ranges :=
  ⟨0, Nat.zero_le _, fun fuel => by rw [addTo, hinsert]; rfl⟩

/-- The result if the loop is known to end within `bound` iterations. -/
theorem AddsTo.of_addLoop {bound : ℕ} (hbound : bound ≤ 2)
    (hinsert : addInsert ranges addRange = some (some (inserted, index)))
    (hloop : ∀ fuel, addLoop fuel inserted index = if fuel < bound then none else some final) :
    AddsTo ranges addRange final :=
  ⟨bound, hbound, fun fuel => by rw [addTo, hinsert]; exact hloop fuel⟩

theorem addsTo_nil : AddsTo [] addRange [addRange] := by
  have hinsert : addInsert [] addRange = some (some ([addRange], 0)) := by
    simp [addInsert, binarySearch, insertBeforeMatching]
  exact .of_addLoop (by decide) hinsert (addLoop_last (by simp))

section

variable (hentry : entry.Fits) (hadd : addRange.Fits) (hbase : entry.base ≤ addRange.base)

include hentry hadd hbase

/-- An `add` to one entry that starts at or below the range. Whatever the entry covers above the
end of the range is lost. -/
theorem addsTo_one : AddsTo [entry] addRange
      (if entry.wasPurged = addRange.wasPurged then
        [⟨entry.base, addRange.base + addRange.count - entry.base, entry.wasPurged⟩]
      else if addRange.base = entry.base then [addRange]
      else [{ entry with count := addRange.base - entry.base }, addRange]) := by
  have hinsert := addInsert_cons [] hentry hadd hbase (by simp)
  by_cases heq : entry = addRange
  · rw [if_pos heq] at hinsert
    rw [if_pos (by rw [heq]), ← heq, Nat.add_sub_cancel_left]
    exact .of_none (heq ▸ hinsert)
  · rw [if_neg heq] at hinsert
    split_ifs at hinsert ⊢
    all_goals exact .of_addLoop (by decide) hinsert (addLoop_last (by simp))

variable {second : VolatilePageRange} (hsecond : second.Fits)

include hsecond

/-- An `add` to two entries of different kinds, of the kind of the first one: the first entry grows to
the end of the range, and the loop returns only if the second one ends there. -/
theorem addsTo_two_same (hlt : entry.base < second.base) (hkind : second.wasPurged ≠ entry.wasPurged)
    (hpurged : entry.wasPurged = addRange.wasPurged) (hne : entry ≠ addRange) :
    if addRange.base + addRange.count < second.base + second.count then
      ∀ fuel, addTo fuel [entry, second] addRange = none
    else AddsTo [entry, second] addRange
      [⟨entry.base, addRange.base + addRange.count - entry.base, entry.wasPurged⟩] := by
  have hinsert := addInsert_cons [second] hentry hadd hbase (by simp)
  rw [if_neg hne, if_pos hpurged] at hinsert
  have := hadd.pos
  have := hadd.lt
  have hgrown : Fits ⟨entry.base, addRange.base + addRange.count - entry.base,
      entry.wasPurged⟩ := by
    constructor <;> simp only <;> omega
  split
  next hshort =>
    intro fuel
    rw [addTo, hinsert]
    exact addLoop_hangs hgrown hsecond hlt hkind (by simp only; omega) fuel
  next hreach =>
    exact .of_addLoop le_rfl hinsert
      (addLoop_absorbs hgrown hsecond hlt hkind (by simp only; omega))

/-- An `add` to two entries of different kinds, of the kind of the second one: the range replaces the
first entry or follows what is left of it, and is combined with the second. -/
theorem addsTo_two_other (hpurged : entry.wasPurged ≠ addRange.wasPurged)
    (hkind : addRange.wasPurged = second.wasPurged) {combined : VolatilePageRange}
    (hcombined : addRange.combineIntersectingOrAdjacent second = some combined) :
    AddsTo [entry, second] addRange
      (if addRange.base = entry.base then [combined]
      else [{ entry with count := addRange.base - entry.base }, combined]) := by
  have hinsert := addInsert_cons [second] hentry hadd hbase (by simp)
  rw [if_neg (fun heq => hpurged (by rw [heq])), if_neg hpurged] at hinsert
  split_ifs at hinsert ⊢
  · exact .of_addLoop le_rfl hinsert (addLoop_combine [] hadd hsecond hkind hcombined)
  · exact .of_addLoop le_rfl hinsert (addLoop_combine [_] hadd hsecond hkind hcombined)

end

end Results

/-! ## Lists that cover the total range -/

/-- The lists that satisfy the property: the empty one, and those that cover the total range by
one entry or by two of different kinds. -/
inductive Good (total : VolatilePageRange) : List VolatilePageRange → Prop
  | nil : Good total []
  | one (wasPurged : Bool) : total.Fits → Good total [⟨total.base, total.count, wasPurged⟩]
  | two (middle : ℕ) (wasPurged : Bool) : total.Fits → total.base < middle →
      middle < total.base + total.count →
      Good total [⟨total.base, middle - total.base, wasPurged⟩,
        ⟨middle, total.base + total.count - middle, !wasPurged⟩]

theorem Good.fits (h : Good total ranges) : ∀ r ∈ ranges, r.Fits := by
  cases h with
  | nil => simp
  | one wasPurged hfits => simpa using ⟨hfits.pos, hfits.lt⟩
  | two middle wasPurged hfits hlow hhigh =>
    have := hfits.lt
    simp only [List.mem_cons, List.not_mem_nil, or_false, forall_eq_or_imp, forall_eq]
    refine ⟨⟨?_, ?_⟩, ⟨?_, ?_⟩⟩ <;> simp only <;> omega

/-- The pages of the total range are covered by a good list that is not empty. -/
theorem Good.covers (h : Good total ranges) {p : ℕ} (hp : p ∈ total.pages) :
    (∃ r ∈ ranges, p ∈ r.pages) ↔ ranges ≠ [] := by
  rw [mem_pages] at hp
  cases h with
  | nil => simp
  | one => simpa using hp
  | two middle wasPurged hfits hlow hhigh =>
    simp only [List.mem_cons, List.not_mem_nil, or_false, exists_eq_or_imp, exists_eq_left,
      mem_pages, ne_eq, reduceCtorEq, not_false_eq_true, iff_true]
    omega

/-- A search finds something if there is anything to find, at its first probe. -/
theorem contains_eq {self : VolatilePageRanges} (hfits : ∀ r ∈ self.ranges, r.Fits) {p : ℕ}
    (hp : p + 1 < 2 ^ 32) : self.contains p = decide (self.ranges ≠ []) := by
  unfold VolatilePageRanges.contains VolatilePageRanges.intersects
  have hpage : Fits ⟨p, 1, false⟩ := ⟨Nat.one_pos, hp⟩
  by_cases hne : self.ranges = []
  · simp [hne, binarySearch]
  · rw [decide_eq_true hne]
    have hlt : (self.ranges.length - 1) / 2 < self.ranges.length := by
      have := List.length_pos_iff.mpr hne
      omega
    rw [binarySearch_middle (List.getElem?_eq_getElem hlt)
      (if_pos (hpage.intersects (hfits _ (List.getElem_mem hlt)))), Option.isSome_some]

variable (h : Good total ranges)

include h

theorem Good.sorted : ranges.Pairwise fun a b => a.base < b.base := by
  cases h with
  | nil => simp
  | one => simp
  | two middle wasPurged hfits hlow hhigh => simpa using hlow

theorem Good.disjoint :
    ranges.Pairwise fun a b => Disjoint a.pages b.pages := by
  cases h with
  | nil => simp
  | one => simp
  | two middle wasPurged hfits hlow hhigh =>
    simp only [List.pairwise_cons, List.mem_singleton, forall_eq, List.not_mem_nil,
      IsEmpty.forall_iff, implies_true, List.Pairwise.nil, and_true]
    refine Set.disjoint_left.mpr fun p hp hp' => ?_
    simp only [mem_pages] at hp hp'
    omega

theorem Good.inside : ∀ r ∈ ranges, r.pages ⊆ total.pages := by
  cases h with
  | nil => simp
  | one => simp [pages]
  | two middle wasPurged hfits hlow hhigh =>
    simp only [List.mem_cons, List.not_mem_nil, or_false, forall_eq_or_imp, forall_eq]
    constructor <;> intro p hp <;> simp only [mem_pages] at hp ⊢ <;> omega

theorem Good.fits_total (hne : ranges ≠ []) : total.Fits := by
  cases h with
  | nil => exact absurd rfl hne
  | one wasPurged hfits => exact hfits
  | two middle wasPurged hfits hlow hhigh => exact hfits

omit h

theorem Good.base_head {rest : List VolatilePageRange} (h : Good total (entry :: rest)) :
    entry.base = total.base := by
  cases h <;> rfl

theorem Good.length_le (h : Good total ranges) : ranges.length ≤ 2 := by
  cases h <;> simp

/-- The list after a `remove` from a good list, if the call completes. -/
def removeFrom (fuel : ℕ) (removeRange : VolatilePageRange) :
    List VolatilePageRange → Option (List VolatilePageRange)
  | [] => some []
  | entry :: rest =>
    if entry.rangeEquals removeRange = true ∨ 0 < fuel ∧ entry.base = removeRange.base then some rest
    else none

/-- A `remove` takes the first entry out, or never completes. -/
theorem Good.remove_eq (h : Good total ranges) {range : VolatilePageRange} (hrange : range.Fits)
    (hremove : (total.intersected range).Within total) (fuel : ℕ) :
    (remove ⟨ranges, total⟩ range false fuel).map (·.2.2) =
      (removeFrom fuel (total.intersected range) ranges).map (⟨·, total⟩) := by
  cases ranges with
  | nil => simp [remove, binarySearch, removeFrom, hremove.fits.isEmpty]
  | cons entry rest =>
    have hentry := h.fits entry List.mem_cons_self
    have hle : entry.base ≤ (total.intersected range).base := h.base_head.trans_le hremove.base_le
    have hcompare : compareIntersecting (total.intersected range) entry = 0 :=
      if_pos (hremove.fits.intersects hentry)
    unfold remove
    simp only [hremove.fits.isEmpty, Bool.false_eq_true, if_false, List.getElem?_cons_zero,
      binarySearch_first hcompare (Nat.le_of_succ_le_succ h.length_le), Option.bind_eq_bind,
      Option.bind_some, Option.pure_def]
    rw [removeFrom]
    split
    next hequals => rw [if_pos (.inl hequals), List.eraseIdx_cons_zero]; rfl
    next hequals =>
      rw [removeLoop_eq hentry hrange hremove.fits hle]
      by_cases hbase : 0 < fuel ∧ entry.base = (total.intersected range).base
      · rw [if_pos hbase, if_pos (.inr hbase)]
        rfl
      · rw [if_neg hbase, if_neg (not_or.mpr ⟨hequals, hbase⟩)]
        rfl

/-! ## When the result of an `add` is right -/

/-- The condition under which an `add` of a clipped range that is not empty is handled correctly. -/
def AddOk (total clipped : VolatilePageRange) : List VolatilePageRange → Prop
  | [] => clipped.base = total.base ∧ clipped.count = total.count
  | [_] => clipped.base + clipped.count = total.base + total.count
  | [first, second] =>
    if clipped.wasPurged = first.wasPurged then
      clipped = first ∨ clipped.base + clipped.count = total.base + total.count
    else clipped.base ≤ second.base
  | _ => False

/-- The condition under which a `remove` of a clipped range that is not empty is handled
correctly. -/
def RemoveOk (total clipped : VolatilePageRange) : List VolatilePageRange → Prop
  | [] => True
  | [_] => clipped.base = total.base ∧ clipped.count = total.count
  | _ => False

instance (total clipped : VolatilePageRange) : DecidablePred (AddOk total clipped)
  | [] => inferInstanceAs (Decidable (_ ∧ _))
  | [_] => inferInstanceAs (Decidable (_ = _))
  | [first, second] =>
    inferInstanceAs (Decidable (if clipped.wasPurged = first.wasPurged then
      clipped = first ∨ clipped.base + clipped.count = total.base + total.count
    else clipped.base ≤ second.base))
  | _ :: _ :: _ :: _ => isFalse id

instance (total clipped : VolatilePageRange) : DecidablePred (RemoveOk total clipped)
  | [] => isTrue trivial
  | [_] => inferInstanceAs (Decidable (_ ∧ _))
  | _ :: _ :: _ => isFalse id

section Exact

variable {fuel : ℕ} {result : List VolatilePageRange} {addRange : VolatilePageRange}
variable (hgood : Good total ranges) (hadd : addRange.Within total)

include hgood hadd

/-- An `add` that meets its condition completes within two iterations of the loop, and leads to a list
that covers the total range. -/
theorem exists_addsTo (hok : AddOk total addRange ranges) :
    ∃ final, AddsTo ranges addRange final ∧ Good total final ∧ final ≠ [] := by
  have htotal := hadd.total_fits
  have hbase := hadd.base_le
  have hfits := hgood.fits
  cases hgood with
  | nil =>
    obtain ⟨hbase, hcount⟩ : addRange.base = total.base ∧ addRange.count = total.count := hok
    refine ⟨_, addsTo_nil, ?_, by simp⟩
    rw [eq_total hbase (by rw [hbase, hcount])]
    exact .one _ htotal
  | one wasPurged _ =>
    have hok : addRange.base + addRange.count = total.base + total.count := hok
    have hadds := addsTo_one (hfits _ List.mem_cons_self) hadd.fits hbase
    refine ⟨_, hadds, ?_, by split_ifs <;> simp⟩
    split_ifs with hkind hsame
    · rw [hok, Nat.add_sub_cancel_left]
      exact .one _ htotal
    · rw [eq_total hsame hok]
      exact .one _ htotal
    · have hpos := hadd.fits.pos
      simp only at hkind hsame
      have hlast : addRange = ⟨addRange.base, total.base + total.count - addRange.base,
          !wasPurged⟩ := by
        ext
        · rfl
        · show addRange.count = total.base + total.count - addRange.base
          omega
        · simpa [Bool.eq_not] using Ne.symm hkind
      rw [hlast]
      exact .two addRange.base wasPurged htotal (by omega) (by omega)
  | two middle wasPurged _ hlow hhigh =>
    have hfirst := hfits _ List.mem_cons_self
    have hsecond := hfits _ (List.mem_cons_of_mem _ List.mem_cons_self)
    by_cases hkind : wasPurged = addRange.wasPurged
    · by_cases heq : ⟨total.base, middle - total.base, wasPurged⟩ = addRange
      · have hinsert := addInsert_cons [⟨middle, total.base + total.count - middle, !wasPurged⟩]
          hfirst hadd.fits hbase (by simp)
        rw [if_pos heq] at hinsert
        exact ⟨_, .of_none hinsert, .two middle wasPurged htotal hlow hhigh, by simp⟩
      · -- The range is not the first entry, so it reaches the end of the total range.
        have hend : addRange.base + addRange.count = total.base + total.count := by
          simpa [AddOk, hkind.symm, Ne.symm heq] using hok
        have hadds := addsTo_two_same hfirst hadd.fits hbase hsecond hlow (by simp) hkind heq
        rw [if_neg (by simp only; omega), hend, Nat.add_sub_cancel_left] at hadds
        exact ⟨_, hadds, .one _ htotal, by simp⟩
    · have hle : addRange.base ≤ middle := by
        simpa [AddOk, Ne.symm hkind] using hok
      have hother : addRange.wasPurged = !wasPurged := by
        simpa [Bool.eq_not] using Ne.symm hkind
      have hadds := addsTo_two_other hfirst hadd.fits hbase hsecond hkind hother
        (hadd.fits.combineIntersectingOrAdjacent hsecond)
      refine ⟨_, hadds, ?_, by split_ifs <;> simp⟩
      rw [if_pos (show addRange.base ≤ middle from hle), hother, Bool.or_self,
        show middle + (total.base + total.count - middle) = total.base + total.count by omega]
      split_ifs with hsame
      · rw [hsame, Nat.add_sub_cancel_left]
        exact .one _ htotal
      · simp only at hsame
        exact .two addRange.base wasPurged htotal (by omega) (by omega)

/-- An `add` without its condition: a page outside the range is lost, or entries overlap, or there
was nothing in the list and the range is not the whole total range. -/
theorem addOk_of_result (h : addTo fuel ranges addRange = some result)
    (hdisjoint : result.Pairwise fun a b => Disjoint a.pages b.pages)
    (hcovered : ranges ≠ [] → ∀ p ∈ total.pages, p ∉ addRange.pages → ∃ r ∈ result, p ∈ r.pages)
    (hnil : ranges = [] → ∀ p ∈ total.pages, p ∈ addRange.pages) :
    AddOk total addRange ranges := by
  have htotal := hadd.total_fits.pos
  have hbase := hadd.base_le
  have hend := hadd.end_le
  have hfits := hgood.fits
  cases hgood with
  | nil =>
    -- The first and the last page of the total range are in the range.
    have hfirst := hnil rfl total.base (by rw [mem_pages]; omega)
    have hlast := hnil rfl (total.base + total.count - 1) (by rw [mem_pages]; omega)
    rw [mem_pages] at hfirst hlast
    show addRange.base = total.base ∧ addRange.count = total.count
    omega
  | one wasPurged _ =>
    show addRange.base + addRange.count = total.base + total.count
    by_contra hne
    obtain ⟨r, hr, hp⟩ := hcovered (by simp) (addRange.base + addRange.count)
      (by rw [mem_pages]; omega) (by simp)
    rw [(addsTo_one (hfits _ List.mem_cons_self) hadd.fits hbase).eq h] at hr
    rw [mem_pages] at hp
    split_ifs at hr with hkind hsame
    · rw [List.mem_singleton] at hr
      subst hr
      simp only at hp
      omega
    · rw [List.mem_singleton] at hr
      subst hr
      omega
    · simp only [List.mem_cons, List.not_mem_nil, or_false] at hr
      rcases hr with rfl | rfl
      · simp only at hp
        omega
      · omega
  | two middle wasPurged _ hlow hhigh =>
    have hfirst := hfits _ List.mem_cons_self
    have hsecond := hfits _ (List.mem_cons_of_mem _ List.mem_cons_self)
    by_cases hkind : wasPurged = addRange.wasPurged
    · simp only [AddOk, hkind, if_true]
      rw [or_iff_not_imp_left]
      intro hne
      have hadds := addsTo_two_same hfirst hadd.fits hbase hsecond hlow (by simp) hkind
        (by rw [hkind]; exact Ne.symm hne)
      split_ifs at hadds with hshort
      · rw [hadds] at h
        cases h
      · simp only at hshort
        omega
    · simp only [AddOk, Ne.symm hkind, if_false]
      by_contra hlt
      have hadds := addsTo_two_other hfirst hadd.fits hbase hsecond hkind
        (by simpa [Bool.eq_not] using Ne.symm hkind)
        (hadd.fits.combineIntersectingOrAdjacent hsecond)
      rw [hadds.eq h, if_neg (by simp only; omega), if_neg hlt] at hdisjoint
      -- The page at the base of the second entry is in both entries.
      have hmiddle := Set.disjoint_left.mp
        (List.rel_of_pairwise_cons hdisjoint List.mem_cons_self) (show middle ∈ _ by
          simp only [mem_pages]
          omega)
      simp only [mem_pages] at hmiddle
      omega

end Exact

end VolatilePageRanges

end Kernel
