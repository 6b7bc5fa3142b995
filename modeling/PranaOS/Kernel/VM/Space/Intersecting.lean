import PranaOS.Kernel.VM.Space

/-!
# `Space::find_regions_intersecting`

The function starts at the last region that does not begin behind the range, and collects regions until
`total_size_collected` is the size of the range. What it adds up is the part of each region that is *not* in
the range, which is zero for all the regions but the first and the last one. So it misses regions in these
cases (`findsIntersecting_iff`):

* no region begins at or below the base of the range;
* the first region reaches out of the range to the left by just as many bytes as the range has;
* the end of the range or of a region is the end of the address space, which wraps to 0.
-/

namespace Kernel

namespace Space

open AK Option
open List hiding Disjoint

variable {range : Range} {regions before after : List Region} {region c : Region} {total : ℕ}

/-- The region and the range have an address in common. -/
def Intersects (range : Range) (region : Region) : Prop :=
  region.range.base < range.base + range.size ∧ range.base < region.range.base + region.range.size

instance : DecidablePred (Intersects range) := fun _ => inferInstanceAs (Decidable (_ ∧ _))

/-- The condition for collecting a region, in which both ends may wrap. -/
def Collected (range : Range) (region : Region) : Prop :=
  region.range.base < range.endAddr ∧ region.range.endAddr > range.base

instance : DecidablePred (Collected range) := fun _ => inferInstanceAs (Decidable (_ ∧ _))

/-- The regions of an address space: they follow each other, are not empty and do not reach beyond the end of
the address space. -/
structure Ordered (regions : List Region) : Prop where
  apart : regions.Pairwise fun a b => a.range.base + a.range.size ≤ b.range.base
  fits : ∀ region ∈ regions, 0 < region.range.size ∧ region.range.base + region.range.size ≤ 2 ^ 32

theorem ordered_of_disjoint (hsorted : Sorted regions)
    (hdisjoint : regions.Pairwise fun a b => Disjoint a.range.addresses b.range.addresses)
    (hfits : ∀ region ∈ regions, 0 < region.range.size ∧
      region.range.base + region.range.size ≤ 2 ^ 32) : Ordered regions where
  apart := by
    refine (hsorted.and hdisjoint).imp_of_mem ?_
    rintro a b ha hb ⟨hle, hdisj⟩
    have hsize := (hfits a ha).1
    have hsize' := (hfits b hb).1
    rcases Range.le_or_le_of_disjoint hsize hsize' hdisj with h | h <;> omega
  fits := hfits

theorem Ordered.tail (h : Ordered (region :: regions)) : Ordered regions :=
  ⟨(pairwise_cons.mp h.apart).2, fun r hr => h.fits r (mem_cons_of_mem _ hr)⟩

theorem Ordered.append_right (h : Ordered (before ++ regions)) : Ordered regions :=
  ⟨(pairwise_append.mp h.apart).2.1, fun r hr => h.fits r (mem_append_right _ hr)⟩

/-- A region is collected if it intersects the range and neither end wraps. -/
theorem collected_iff (hregion : region.range.base + region.range.size ≤ 2 ^ 32)
    (hrange : range.base + range.size ≤ 2 ^ 32) :
    Collected range region ↔ Intersects range region ∧ range.base + range.size < 2 ^ 32 ∧
      region.range.base + region.range.size < 2 ^ 32 := by
  unfold Collected Intersects Range.endAddr
  omega

section Loop

variable (hrange : 0 < range.size ∧ range.base + range.size ≤ 2 ^ 32)
include hrange

/-- The part of a collected region that is in the range. -/
theorem Collected.intersect (h : Collected range region)
    (hregion : 0 < region.range.size ∧ region.range.base + region.range.size ≤ 2 ^ 32) :
    ∃ common, region.range.intersect range = some common ∧
      common.size = min (region.range.base + region.range.size) (range.base + range.size) -
        max region.range.base range.base := by
  obtain ⟨⟨hlow, hhigh⟩, hend, hend'⟩ := (collected_iff hregion.2 hrange.2).mp h
  have hlt : max region.range.base range.base <
      min (region.range.base + region.range.size) (range.base + range.size) := by
    omega
  unfold Range.intersect
  split
  next heq => exact ⟨region.range, rfl, by rw [heq]; omega⟩
  next =>
    rw [Range.endAddr_eq hend', Range.endAddr_eq hend]
    simp only [hlt, verify_true, bind_eq_bind, bind_some, Option.pure_def]
    exact ⟨_, rfl, rfl⟩

/-! ## The loop -/

/-- The part of a region that is outside of the range. -/
def outside (range : Range) (region : Region) : ℕ :=
  (range.base - region.range.base) +
    (region.range.base + region.range.size - (range.base + range.size))

/-- What an iteration does with a region that is collected. -/
theorem findRegionsIntersectingLoop_cons (h : Collected range region)
    (hregion : 0 < region.range.size ∧ region.range.base + region.range.size ≤ 2 ^ 32) :
    findRegionsIntersectingLoop range (region :: regions) total =
      if (total + outside range region) % 2 ^ 32 = range.size then some [region]
      else (findRegionsIntersectingLoop range regions ((total + outside range region) % 2 ^ 32)).map
        (region :: ·) := by
  obtain ⟨common, hcommon, hsize⟩ := h.intersect hrange hregion
  obtain ⟨⟨hlow, hhigh⟩, -, -⟩ := (collected_iff hregion.2 hrange.2).mp h
  have houtside : region.range.size - common.size = outside range region := by
    unfold outside
    omega
  rw [findRegionsIntersectingLoop, if_pos (show _ ∧ _ from h)]
  simp only [hcommon, houtside, bind_eq_bind, bind_some, Option.pure_def]
  split
  · rfl
  · rw [map_eq_bind]; rfl

omit hrange in
theorem findRegionsIntersectingLoop_skip (h : ¬Collected range region) :
    findRegionsIntersectingLoop range (region :: regions) total =
      findRegionsIntersectingLoop range regions total := by
  exact if_neg h

omit hrange in
theorem findRegionsIntersectingLoop_none (h : ∀ region ∈ regions, ¬Collected range region) :
    findRegionsIntersectingLoop range regions total = some [] := by
  induction regions with
  | nil => rfl
  | cons region rest ih =>
    rw [findRegionsIntersectingLoop_skip (h region mem_cons_self)]
    exact ih fun r hr => h r (mem_cons_of_mem _ hr)

omit hrange in
/-- Nothing is collected behind a region that reaches to the end of the range. -/
theorem Ordered.not_collected (h : Ordered (region :: regions))
    (hrange : range.base + range.size ≤ 2 ^ 32)
    (hend : range.base + range.size ≤ region.range.base + region.range.size) :
    ∀ r ∈ regions, ¬Collected range r := by
  intro r hr hcollected
  have hapart := (pairwise_cons.mp h.apart).1 r hr
  have hfits := (h.fits r (mem_cons_of_mem _ hr)).2
  have hlow := ((collected_iff hfits hrange).mp hcollected).1.1
  omega

/-- The loop stops at a region that completes the total by what it reaches out to the left. Otherwise the
total does not matter: what reaches out to the right is behind everything that is collected. -/
theorem findRegionsIntersectingLoop_step (hordered : Ordered (c :: after))
    (hafter : ∀ total < 2 ^ 32, total ≠ range.size →
      findRegionsIntersectingLoop range after total = some (after.filter (Collected range ·)))
    (htotal : total + (range.base - c.range.base) < 2 ^ 32) (hne : total ≠ range.size) :
    findRegionsIntersectingLoop range (c :: after) total =
      some (if Collected range c ∧ total + (range.base - c.range.base) = range.size then [c]
        else (c :: after).filter (Collected range ·)) := by
  have hfits := hordered.fits c mem_cons_self
  by_cases hcollected : Collected range c
  · rw [findRegionsIntersectingLoop_cons hrange hcollected hfits,
      filter_cons_of_pos (by simpa using hcollected)]
    by_cases hend : range.base + range.size ≤ c.range.base + c.range.size
    · have hnone := hordered.not_collected hrange.2 hend
      rw [findRegionsIntersectingLoop_none hnone,
        filter_eq_nil_iff.mpr fun r hr => by simpa using hnone r hr]
      split <;> split <;> rfl
    · have houtside : outside range c = range.base - c.range.base := by
        unfold outside
        omega
      rw [houtside, Nat.mod_eq_of_lt htotal]
      by_cases hstop : total + (range.base - c.range.base) = range.size
      · rw [if_pos hstop, if_pos ⟨hcollected, hstop⟩]
      · rw [if_neg hstop, if_neg fun h => hstop h.2, hafter _ htotal hstop]
        rfl
  · rw [findRegionsIntersectingLoop_skip hcollected, if_neg fun h => hcollected h.1,
      hafter _ (by omega) hne, filter_cons_of_neg (by simpa using hcollected)]

/-- Regions that do not reach out of the range to the left are all collected. -/
theorem findRegionsIntersectingLoop_eq_filter (hordered : Ordered regions)
    (hbase : ∀ region ∈ regions, range.base ≤ region.range.base)
    (htotal : total < 2 ^ 32) (hne : total ≠ range.size) :
    findRegionsIntersectingLoop range regions total = some (regions.filter (Collected range ·)) := by
  induction regions generalizing total with
  | nil => rfl
  | cons region rest ih =>
    have hlow := hbase region mem_cons_self
    rw [findRegionsIntersectingLoop_step hrange hordered
      (fun _ => ih hordered.tail fun r hr => hbase r (mem_cons_of_mem _ hr)) (by omega) hne,
      if_neg (by omega)]

/-- What is collected from the candidate on: the loop stops at once if the candidate reaches out of the range
to the left by just as many bytes as the range has. -/
def collectedFrom (range : Range) (c : Region) (after : List Region) : List Region :=
  if Collected range c ∧ c.range.base + range.size = range.base then [c]
  else (c :: after).filter (Collected range ·)

theorem findRegionsIntersectingLoop_candidate (hordered : Ordered (c :: after))
    (hbase : c.range.base ≤ range.base) (hafter : ∀ region ∈ after, range.base < region.range.base) :
    findRegionsIntersectingLoop range (c :: after) 0 = some (collectedFrom range c after) := by
  have hstop : 0 + (range.base - c.range.base) = range.size ↔
      c.range.base + range.size = range.base := by
    omega
  rw [findRegionsIntersectingLoop_step hrange hordered
    (fun _ => findRegionsIntersectingLoop_eq_filter hrange hordered.tail fun r hr =>
      (hafter r hr).le) (by omega) (by omega)]
  simp only [collectedFrom, hstop]

end Loop

/-! ## The whole search -/

/-- The largest region that is not above the key splits the regions. -/
theorem exists_split_of_findLargestNotAbove {self : Space} {key : ℕ}
    (h : self.findLargestNotAbove key = some c) :
    ∃ before after, self.regions = before ++ c :: after ∧ c.range.base ≤ key ∧
      ∀ region ∈ after, key < region.range.base := by
  rw [findLargestNotAbove] at h
  generalize self.regions = regions at h ⊢
  induction regions using List.reverseRecOn with
  | nil => cases h
  | append_singleton regions last ih =>
    by_cases hlast : last.range.base ≤ key
    · rw [filter_append, filter_cons_of_pos (by simpa using hlast), filter_nil,
        getLast?_concat] at h
      obtain rfl := some.inj h
      exact ⟨regions, [], rfl, hlast, by simp⟩
    · rw [filter_append, filter_cons_of_neg (by simpa using hlast), filter_nil, append_nil] at h
      obtain ⟨before, after, rfl, hle, hafter⟩ := ih h
      refine ⟨before, after ++ [last], by simp, hle, fun r hr => ?_⟩
      rcases mem_append.mp hr with hr | hr
      · exact hafter r hr
      · rw [mem_singleton.mp hr]
        exact not_le.mp hlast

/-- What `find_regions_intersecting` is for: it returns the regions that intersect the range, in the order of
their addresses. -/
def FindsIntersecting (self : Space) (range : Range) : Prop :=
  self.findRegionsIntersecting range = some (self.regions.filter (Intersects range ·))

/-- When no region is missed. If some region intersects the range, no end wraps, some region begins at or below
the base of the range, and the first one that intersects the range does not reach out of it by just as many
bytes as the range has, unless it is the only one. -/
def NoneMissed (self : Space) (range : Range) : Prop :=
  match self.regions.filter (Intersects range ·) with
  | [] => True
  | first :: rest =>
    range.base + range.size < 2 ^ 32 ∧
      (∀ region ∈ first :: rest, region.range.base + region.range.size < 2 ^ 32) ∧
      (∃ region ∈ self.regions, region.range.base ≤ range.base) ∧
      (rest = [] ∨ first.range.base + range.size ≠ range.base)

instance {self : Space} : Decidable (self.NoneMissed range) := by
  unfold NoneMissed
  split <;> infer_instance

/-- The regions before the candidate are not in question. -/
theorem Ordered.filter_eq (h : Ordered regions) (hsplit : regions = before ++ c :: after)
    (hbase : c.range.base ≤ range.base) :
    regions.filter (Intersects range ·) = (c :: after).filter (Intersects range ·) := by
  subst hsplit
  have hnone : before.filter (Intersects range ·) = [] := by
    refine filter_eq_nil_iff.mpr fun r hr => ?_
    have hapart := (pairwise_append.mp h.apart).2.2 r hr c mem_cons_self
    rw [decide_eq_true_eq, Intersects]
    omega
  rw [filter_append, hnone, nil_append]

/-- The search, with the candidate. -/
theorem findRegionsIntersecting_eq {self : Space} (hordered : Ordered self.regions)
    (hrange : 0 < range.size ∧ range.base + range.size ≤ 2 ^ 32)
    (hsplit : self.regions = before ++ c :: after) (hbase : c.range.base ≤ range.base)
    (hafter : ∀ region ∈ after, range.base < region.range.base)
    (hfind : self.findLargestNotAbove range.base = some c) :
    self.findRegionsIntersecting range = some (collectedFrom range c after) := by
  rw [hsplit] at hordered
  have hdrop : (before ++ c :: after).dropWhile (fun region => region.range.base ≠ c.range.base) =
      c :: after := by
    rw [dropWhile_append_of_pos, dropWhile_cons_of_neg (by simp)]
    intro r hr
    have hapart := (pairwise_append.mp hordered.apart).2.2 r hr c mem_cons_self
    have hsize := (hordered.fits r (mem_append_left _ hr)).1
    simp only [ne_eq, decide_not, Bool.not_eq_true', decide_eq_false_iff_not]
    omega
  rw [findRegionsIntersecting, hfind]
  simp only
  rw [hsplit, hdrop, findRegionsIntersectingLoop_candidate hrange hordered.append_right hbase hafter]

section Candidate

variable {self : Space} (hordered : Ordered self.regions)
  (hrange : 0 < range.size ∧ range.base + range.size ≤ 2 ^ 32)
  (hsplit : self.regions = before ++ c :: after) (hbase : c.range.base ≤ range.base)
include hordered hrange hsplit

theorem collected_candidate_iff (hr : region ∈ c :: after) : Collected range region ↔
    Intersects range region ∧ range.base + range.size < 2 ^ 32 ∧
      region.range.base + region.range.size < 2 ^ 32 :=
  collected_iff (hordered.fits region (hsplit ▸ mem_append_right _ hr)).2 hrange.2

include hbase in
/-- If the regions that the search returns are the right ones, none is missed. -/
theorem noneMissed_of_candidate (hafter : ∀ region ∈ after, range.base < region.range.base)
    (hresult : collectedFrom range c after = (c :: after).filter (Intersects range ·)) :
    self.NoneMissed range := by
  have hmem (r : Region) (hr : r ∈ (c :: after).filter (Intersects range ·)) : Collected range r := by
    rw [← hresult, collectedFrom] at hr
    split at hr
    next hstop => exact mem_singleton.mp hr ▸ hstop.1
    next => simpa using (mem_filter.mp hr).2
  rw [NoneMissed, hordered.filter_eq hsplit hbase]
  split
  next => trivial
  next first rest hcons =>
    have hwraps (r : Region) (hr : r ∈ first :: rest) :=
      (collected_candidate_iff hordered hrange hsplit (mem_filter.mp (hcons ▸ hr)).1).mp
        (hmem r (hcons ▸ hr))
    refine ⟨(hwraps first mem_cons_self).2.1, fun r hr => (hwraps r hr).2.2,
      ⟨c, by simp [hsplit], hbase⟩, ?_⟩
    by_contra hnot
    obtain ⟨hrest, hfirst⟩ := not_or.mp hnot
    rw [not_not] at hfirst
    -- only the candidate begins in front of the range, and the search has stopped there
    have hfirstMem : first ∈ (c :: after).filter (Intersects range ·) := by
      rw [hcons]
      exact mem_cons_self
    obtain rfl : first = c := by
      rcases mem_cons.mp (mem_filter.mp hfirstMem).1 with h | h
      · exact h
      · have := hafter first h
        omega
    rw [collectedFrom, if_pos ⟨hmem first hfirstMem, hfirst⟩, hcons] at hresult
    exact hrest (List.cons.inj hresult).2.symm

include hbase in
/-- If no region is missed, the search returns the right ones. -/
theorem candidate_of_noneMissed (hcond : self.NoneMissed range) :
    collectedFrom range c after = (c :: after).filter (Intersects range ·) := by
  have hcollected (r : Region) (hr : r ∈ c :: after) := collected_candidate_iff hordered hrange hsplit hr
  rw [NoneMissed, hordered.filter_eq hsplit hbase] at hcond
  cases hcons : (c :: after).filter (Intersects range ·) with
  | nil =>
    have hnone : ∀ r ∈ c :: after, ¬Collected range r := fun r hr hcoll =>
      filter_eq_nil_iff.mp hcons r hr (by simpa using ((hcollected r hr).mp hcoll).1)
    rw [collectedFrom, if_neg fun h => hnone c mem_cons_self h.1]
    exact filter_eq_nil_iff.mpr fun r hr => by simpa using hnone r hr
  | cons first rest =>
    rw [hcons] at hcond
    obtain ⟨hend, hends, -, hstop⟩ := hcond
    unfold collectedFrom
    split
    next hc =>
      have hin := ((hcollected c mem_cons_self).mp hc.1).1
      rw [filter_cons_of_pos (by simpa using hin)] at hcons
      obtain ⟨rfl, -⟩ := List.cons.inj hcons
      rw [hstop.resolve_right (not_not.mpr hc.2)]
    next =>
      rw [← hcons]
      refine filter_congr fun r hr => decide_eq_decide.mpr ?_
      rw [hcollected r hr]
      refine ⟨fun h => h.1, fun h => ⟨h, hend, hends r ?_⟩⟩
      rw [← hcons]
      exact mem_filter.mpr ⟨hr, by simpa using h⟩

end Candidate

/-- `find_regions_intersecting` returns the regions that intersect the range exactly if none is missed. -/
theorem findsIntersecting_iff (self : Space) (range : Range) (hsorted : Sorted self.regions)
    (hdisjoint : self.regions.Pairwise fun a b => Disjoint a.range.addresses b.range.addresses)
    (hfits : ∀ region ∈ self.regions, 0 < region.range.size ∧
      region.range.base + region.range.size ≤ 2 ^ 32)
    (hrange : 0 < range.size ∧ range.base + range.size ≤ 2 ^ 32) :
    self.FindsIntersecting range ↔ self.NoneMissed range := by
  have hordered := ordered_of_disjoint hsorted hdisjoint hfits
  unfold FindsIntersecting
  cases hfind : self.findLargestNotAbove range.base with
  | none =>
    have hnone : ∀ region ∈ self.regions, ¬region.range.base ≤ range.base := by
      rw [findLargestNotAbove, getLast?_eq_none_iff, filter_eq_nil_iff] at hfind
      simpa using hfind
    unfold NoneMissed
    rw [findRegionsIntersecting, hfind]
    simp only [some.injEq]
    split
    next hnil => simp [hnil]
    next first rest hcons =>
      rw [hcons]
      refine iff_of_false (by simp) ?_
      rintro ⟨-, -, ⟨r, hr, hle⟩, -⟩
      exact hnone r hr hle
  | some c =>
    obtain ⟨before, after, hsplit, hbase, hafter⟩ := exists_split_of_findLargestNotAbove hfind
    rw [findRegionsIntersecting_eq hordered hrange hsplit hbase hafter hfind, some.injEq,
      hordered.filter_eq hsplit hbase]
    exact ⟨noneMissed_of_candidate hordered hrange hsplit hbase hafter,
      candidate_of_noneMissed hordered hrange hsplit hbase⟩

/-- A region of an anonymous object. -/
def plainRegion (id base size : ℕ) : Region where
  id := id
  range := ⟨base, size⟩
  offsetInVMObject := 0
  vmobject := ⟨.anonymous, size⟩
  access := 0
  shared := false
  cacheable := true
  stack := false
  mmap := true
  syscallRegion := false
  mapped := true

/-- A space with the regions. -/
def spaceOf (regions : List Region) : Space where
  rangeAllocator := .initializeWithRange 0x800000 0x1000000
  regions := regions
  regionLookupCache := ⟨none, none⟩
  nextId := regions.length

/-- Two regions that are both cut by the range. -/
theorem findsIntersecting_iff_two_regions :
    (spaceOf [plainRegion 0 0x1000 0x3000, plainRegion 1 0x4000 0x2000]).FindsIntersecting
      ⟨0x2000, 0x3000⟩ := by
  refine (findsIntersecting_iff _ ⟨0x2000, 0x3000⟩ ?_ ?_ ?_ ?_).mpr ?_
  · exact pairwise_pair.mpr (by decide)
  · refine pairwise_pair.mpr (Set.disjoint_left.mpr fun x hx hx' => ?_)
    simp only [plainRegion, Range.mem_addresses] at hx hx'
    omega
  · decide
  · decide
  · decide

/-- A region is missed because no region begins at or below the range, and one because the region before it
reaches out of the range by just as many bytes as the range has. -/
theorem intersecting_region_missed :
    (spaceOf [plainRegion 0 0x3000 0x1000]).findRegionsIntersecting ⟨0x2000, 0x2000⟩ = some [] ∧
      ¬(spaceOf [plainRegion 0 0x3000 0x1000]).FindsIntersecting ⟨0x2000, 0x2000⟩ ∧
      (spaceOf [plainRegion 0 0x1000 0x3000, plainRegion 1 0x4000 0x2000]).findRegionsIntersecting
        ⟨0x3000, 0x2000⟩ = some [plainRegion 0 0x1000 0x3000] ∧
      ¬(spaceOf [plainRegion 0 0x1000 0x3000, plainRegion 1 0x4000 0x2000]).FindsIntersecting
        ⟨0x3000, 0x2000⟩ := by
  unfold FindsIntersecting
  decide

end Space

end Kernel
