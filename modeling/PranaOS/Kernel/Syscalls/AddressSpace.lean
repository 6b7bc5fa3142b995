import PranaOS.Kernel.Syscalls.Mmap

/-!
# The partition of an address space

From a fresh address space, successful calls of `sys$mmap` (anonymous and private), `sys$munmap`
and `sys$mprotect` should keep the regions and the free ranges of the allocator a partition of the
allocator's range, and `sys$munmap` should remove exactly the range it is called with.

Both hold as long as every range given to `sys$munmap` lies inside one region
(`partitioned_of_meets`). The third path of `sys$munmap`, for ranges that meet several regions or
none, gives the whole range back to the allocator although the regions inside it have already
given back theirs or are still there (`munmap_leaves_overlap`).
-/

namespace Kernel

open AK Tiling Transition Option
open List hiding Disjoint

/-! ## Page arithmetic -/

/-- The range that a call works on consists of whole pages and does not wrap. -/
theorem expandRangeToPageBoundaries_eq_ok {address size : ℕ} {range : Range} (hsize : size < 2 ^ 32)
    (h : expandRangeToPageBoundaries address size = some (.ok range)) :
    range.base + range.size < 2 ^ 32 ∧ range.size % 4096 = 0 ∧ (0 < size → 0 < range.size) := by
  unfold expandRangeToPageBoundaries at h
  split at h
  · simp at h
  · split at h
    · simp at h
    · split at h
      · simp at h
      · rename_i hadd hwrap
        obtain ⟨endAddr, hend, h⟩ := bind_eq_some_iff.mp h
        cases h
        simp only [pageRoundUpWouldWrap, gt_iff_lt, decide_eq_true_eq, not_lt] at hwrap
        have := pageRoundUp_eq_some hwrap hend
        simp only [pageBase, pageSize]
        omega

namespace Space

/-! ## Consistent address spaces -/

/-- A region that is inside the total range, not empty and mapped. -/
structure RegionOk (total : Range) (region : Region) : Prop where
  inside : total.Encloses region.range
  positive : 0 < region.range.size
  mapped : region.mapped = true

/-- What every successful call keeps. -/
structure Consistent (space : Space) : Prop where
  ids : space.IdsOk
  valid : space.rangeAllocator.Valid
  base_pos : 0 < space.rangeAllocator.totalRange.base
  end_lt : space.rangeAllocator.totalRange.base + space.rangeAllocator.totalRange.size < 2 ^ 32
  ok : ∀ region ∈ space.regions, RegionOk space.rangeAllocator.totalRange region
  sorted : Sorted space.regions
  cache_lt : ∀ id, space.regionLookupCache.region = some id → id < space.nextId
  cache : ∀ region ∈ space.regions, space.regionLookupCache.region = some region.id →
    space.regionLookupCache.range = some region.range
  tiles : Tiles Range.addresses
    (space.rangeAllocator.availableRanges ++ space.regions.map Region.range)
    space.rangeAllocator.totalRange.addresses

variable {self self' : Space} {region : Region} {range : Range}

variable (h : self.Consistent)

include h

/-- A region lies below every region listed after it. -/
theorem Consistent.pairwise :
    self.regions.Pairwise fun a b => a.range.base + a.range.size ≤ b.range.base := by
  have hdisjoint := pairwise_disjoint_iff.mpr h.tiles.le_one
  rw [pairwise_append, pairwise_map] at hdisjoint
  refine (List.Pairwise.and h.sorted hdisjoint.2.1).imp_of_mem fun {a b} ha hb hab => ?_
  have hpos := (h.ok b hb).positive
  have := Range.le_or_le_of_disjoint (h.ok a ha).positive hpos hab.2
  omega

/-- The region found for a range covers exactly this range. Only the cache changes. -/
theorem findRegionFromRange_eq_some (hsize : range.size % 4096 = 0)
    (hlt : range.base + range.size < 2 ^ 32) {found : Option Region}
    (hfind : self.findRegionFromRange range = some (found, self')) :
    self'.Consistent ∧ self'.regions = self.regions ∧
      self'.rangeAllocator = self.rangeAllocator ∧
      ∀ region, found = some region → region ∈ self.regions ∧ region.range = range := by
  rcases findRegionFromRange_cases hfind with ⟨rfl, rfl⟩ | ⟨region, hmem, rfl, hself, hfound⟩
  · exact ⟨h, rfl, rfl, by simp⟩
  have hrange : region.range = range := by
    rcases hfound with rfl | ⟨hbase, hrounded⟩
    · have hcache := h.cache region hmem (by rw [hself])
      rw [hself, some.injEq] at hcache
      exact hcache.symm
    · have := pageRoundUp_eq_some (by omega) hrounded
      rw [Range.ext_iff]
      exact ⟨hbase, by omega⟩
  subst hself
  refine ⟨{ h with cache_lt := ?_, cache := ?_ }, rfl, rfl, ?_⟩
  · rintro id hid
    obtain rfl : region.id = id := some.inj hid
    exact h.ids.1 region hmem
  · intro r hr hid
    have hrid : region.id = r.id := some.inj hid
    rw [← h.ids.eq_of_id hr region hmem hrid, hrange]
  · rintro r hr
    obtain rfl : region = r := some.inj hr
    exact ⟨hmem, hrange⟩

/-- `find_region_containing` returns a region of the tree that encloses the range. -/
theorem findRegionContaining_encloses (hpos : 0 < range.size)
    (hlt : range.base + range.size < 2 ^ 32)
    (hfind : self.findRegionContaining range = some region) :
    region ∈ self.regions ∧ region.range.Encloses range := by
  obtain ⟨hmem, hcontains⟩ := findRegionContaining_eq_some hfind
  have hbound := (h.ok region hmem).inside.2.trans_lt h.end_lt
  exact ⟨hmem, ((Range.contains_iff hbound.le (by omega) (by omega) hpos).mp hcontains).2⟩

/-- The region that encloses a range is found. -/
theorem findRegionContaining_ne_none (hpos : 0 < range.size)
    (hlt : range.base + range.size < 2 ^ 32) (hmem : region ∈ self.regions)
    (hencloses : region.range.Encloses range) : self.findRegionContaining range ≠ none := by
  obtain ⟨front, back, hsplit⟩ := append_of_mem hmem
  have hpair := h.pairwise
  rw [hsplit, pairwise_append, pairwise_cons] at hpair
  have hbase := hencloses.1
  have hend := hencloses.2
  -- no region after it starts at or below the base of the range
  have hback : back.filter (fun r => r.range.base ≤ range.base) = [] := by
    rw [filter_eq_nil_iff]
    intro r hr
    have := hpair.2.1.1 r hr
    simp only [decide_eq_true_eq, not_le]
    omega
  have hcandidate : self.findLargestNotAbove range.base = some region := by
    rw [findLargestNotAbove, hsplit, filter_append, filter_cons_of_pos (by simpa using hbase),
      hback, getLast?_concat]
  have hbound := (h.ok region hmem).inside.2.trans_lt h.end_lt
  have hcontains : region.range.contains range = true :=
    (Range.contains_iff hbound.le (by omega) (by omega) hpos).mpr ⟨hbound, hencloses⟩
  rw [findRegionContaining, hcandidate]
  simp [hcontains]

omit h

/-! ## Exchanging regions -/

variable {removed added : List Region} {mid : Space}

/-- How often the regions cover an address. -/
def covers (self : Space) (x : ℕ) : ℕ := multiplicity Range.addresses (self.regions.map Region.range) x

section

variable (h : self.Consistent)

include h

/-- Regions are exchanged, addresses move between the free ranges and the regions accordingly, and all
regions are changed by `f`, which maps those that are new. -/
theorem Consistent.exchange (hexchange : Exchanges self removed added mid) {rangeAllocator : RangeAllocator}
    (hvalid : rangeAllocator.Valid)
    (htotal : rangeAllocator.totalRange = self.rangeAllocator.totalRange)
    (hbalance : ∀ x, multiplicity Range.addresses rangeAllocator.availableRanges x +
        multiplicity Range.addresses (added.map Region.range) x =
      multiplicity Range.addresses self.rangeAllocator.availableRanges x +
        multiplicity Range.addresses (removed.map Region.range) x)
    (hadded : ∀ r ∈ added, self.rangeAllocator.totalRange.Encloses r.range ∧ 0 < r.range.size)
    (f : Region → Region) (hf : ∀ r, (f r).id = r.id ∧ (f r).range = r.range ∧
      (r.mapped = true ∨ r ∈ added → (f r).mapped = true)) :
    Consistent { mid with rangeAllocator, regions := mid.regions.map f } ∧
      ∀ x, covers { mid with rangeAllocator, regions := mid.regions.map f } x +
          multiplicity Range.addresses (removed.map Region.range) x =
        self.covers x + multiplicity Range.addresses (added.map Region.range) x := by
  have hids := h.ids.exchange hexchange
  obtain ⟨⟨kept, hold, hnew⟩, hsorted, hnext, -, hcache⟩ := id hexchange
  have hmem : ∀ {r}, r ∈ mid.regions → r ∈ added ∨ r ∈ self.regions := fun hr =>
    (mem_append.mp (hnew.mem_iff.mp hr)).imp_right fun hr =>
      hold.mem_iff.mpr (mem_append_right _ hr)
  have hmap : ∀ {P : Region → Prop}, (∀ r ∈ mid.regions, P (f r)) →
      ∀ r ∈ mid.regions.map f, P r := List.forall_mem_map.mpr
  have hranges : (mid.regions.map f).map Region.range = mid.regions.map Region.range := by
    rw [List.map_map]
    exact map_congr_left fun r _ => (hf r).2.1
  have hcovers : ∀ x, covers { mid with rangeAllocator, regions := mid.regions.map f } x +
      multiplicity Range.addresses (removed.map Region.range) x =
        self.covers x + multiplicity Range.addresses (added.map Region.range) x := by
    intro x
    rw [covers, covers, hranges, multiplicity_perm (hold.map _), multiplicity_perm (hnew.map _)]
    simp only [map_append, multiplicity_append]
    omega
  refine ⟨{
    ids := hids.map fun r => (hf r).1
    valid := hvalid
    base_pos := htotal ▸ h.base_pos
    end_lt := htotal ▸ h.end_lt
    ok := hmap fun r hr => ?_
    sorted := ?_
    cache_lt := fun id hcached => ?_
    cache := hmap fun r hr hcached => ?_
    tiles := ?_ }, hcovers⟩
  · rw [htotal]
    rcases hmem hr with hr | hr
    · obtain ⟨hinside, hpos⟩ := hadded r hr
      exact ⟨by rwa [(hf r).2.1], by rwa [(hf r).2.1], (hf r).2.2 (.inr hr)⟩
    · obtain ⟨hinside, hpos, hmapped⟩ := h.ok r hr
      exact ⟨by rwa [(hf r).2.1], by rwa [(hf r).2.1], (hf r).2.2 (.inl hmapped)⟩
  · refine pairwise_map.mpr ((hsorted h.sorted).imp fun hab => ?_)
    rw [(hf _).2.1, (hf _).2.1]
    exact hab
  · rcases hcache with heq | hnone
    · rw [heq] at hcached
      rw [hnext]
      exact (h.cache_lt id hcached).trans_le (Nat.le_add_right _ _)
    · rw [hnone] at hcached
      cases hcached
  · rw [(hf r).1] at hcached
    rw [(hf r).2.1]
    rcases hcache with heq | hnone
    · rw [heq] at hcached ⊢
      rcases hmem hr with hr | hr
      · have := hexchange.le_id hr
        have := h.cache_lt _ hcached
        omega
      · exact h.cache r hr hcached
    · rw [hnone] at hcached
      cases hcached
  · rw [htotal]
    refine h.tiles.congr fun x => ?_
    have h1 := hbalance x
    have h2 := hcovers x
    simp only [covers] at h2
    simp only [multiplicity_append]
    omega

/-! ## The calls -/

/-- Giving a range of the address space back to the allocator. -/
theorem Consistent.deallocate
    (hencloses : self.rangeAllocator.totalRange.Encloses range) {rangeAllocator : RangeAllocator}
    (hdeallocate : self.rangeAllocator.deallocate range = some rangeAllocator) :
    rangeAllocator.Valid ∧ rangeAllocator.totalRange = self.rangeAllocator.totalRange ∧
      ∀ x, multiplicity Range.addresses rangeAllocator.availableRanges x =
        multiplicity Range.addresses self.rangeAllocator.availableRanges x +
          multiplicity Range.addresses [range] x := by
  have hend := hencloses.2.trans_lt h.end_lt
  have hbase : range.base < 2 ^ 32 := by omega
  have hsize : range.size < 2 ^ 32 := by omega
  exact ⟨RangeAllocator.deallocate_valid h.valid hbase hsize hdeallocate,
    (RangeAllocator.deallocate_eq_some h.valid hbase hsize hdeallocate).2.2.1,
    RangeAllocator.multiplicity_deallocate h.valid hbase hsize hdeallocate⟩

/-- The first path of `sys$munmap`: the destructor of the region gives its range back. -/
theorem Consistent.deallocateRegion (hmem : region ∈ self.regions)
    (hdeallocate : self.deallocateRegion region = some (true, self')) :
    self'.Consistent ∧ ∀ x, self'.covers x + multiplicity Range.addresses [region.range] x =
      self.covers x := by
  obtain ⟨mid, hexchange, halloc, hdestroy⟩ := deallocateRegion_eq_some (h.ids.eq_of_id hmem) hdeallocate
  rcases destroyRegion_eq_some hdestroy with ⟨hunmapped, -⟩ | ⟨rangeAllocator, hgive, rfl⟩
  · rw [(h.ok _ hmem).mapped] at hunmapped
    cases hunmapped
  · rw [halloc] at hgive
    obtain ⟨hvalid, htotal, hbalance⟩ := h.deallocate (h.ok _ hmem).inside hgive
    have hresult := h.exchange hexchange hvalid htotal (fun x => by simpa using hbalance x) (by simp) id
      (by simp)
    simpa using hresult

/-- The parts of a region on both sides of a range lie inside it and are not empty. -/
theorem Consistent.of_mem_parts (hmem : region ∈ self.regions) (hencloses : region.range.Encloses range)
    {parts : List Region} (hparts : region.range.carve range = some (parts.map Region.range)) :
    parts.map Region.range = region.range.remainder range ∧ ∀ r ∈ parts,
      self.rangeAllocator.totalRange.Encloses r.range ∧ 0 < r.range.size := by
  have hinside := (h.ok region hmem).inside
  have hranges := Range.carve_eq_some hencloses (hinside.2.trans_lt h.end_lt) hparts
  refine ⟨hranges, fun r hr => ?_⟩
  exact (Range.of_mem_remainder hencloses (hranges ▸ List.mem_map_of_mem hr)).imp_left hinside.trans

/-- The second path of `sys$munmap`: the parts of the region on both sides of the range become
regions, and the range is given back. -/
theorem Consistent.munmapCarve (hmem : region ∈ self.regions)
    (hencloses : region.range.Encloses range) (hcarve : munmapCarve self region range = some self') :
    self'.Consistent ∧ ∀ x, self'.covers x + multiplicity Range.addresses [range] x = self.covers x := by
  obtain ⟨added, mid, rangeAllocator, hparts, -, hexchange, hgive, rfl⟩ :=
    munmapCarve_eq_some (h.ids.eq_of_id hmem) hcarve
  obtain ⟨hranges, hadded⟩ := h.of_mem_parts hmem hencloses hparts
  obtain ⟨hvalid, htotal, hbalance⟩ := h.deallocate ((h.ok region hmem).inside.trans hencloses) hgive
  have hremainder := Range.multiplicity_remainder hencloses
  refine (h.exchange hexchange hvalid htotal (fun x => ?_) hadded _ fun r => ?_).imp_right
    fun hcovers x => ?_
  · have h1 := hbalance x
    have h2 := hremainder x
    rw [hranges, map_singleton]
    omega
  · obtain ⟨hid, hrange, -, hmapped⟩ := mapRegions_keeps (added.map Region.id) r
    exact ⟨hid, hrange, fun hr => hmapped (hr.imp_right List.mem_map_of_mem)⟩
  · have h1 := hcovers x
    have h2 := hremainder x
    rw [hranges, map_singleton] at h1
    simp only [mapRegions]
    omega

end

variable {prot : BitVec 32} {params : MmapParams} {env : MmapEnv} {value : ℕ}
  {promises : Option (List Pledge)} {addr size : UInt32} {canGrow : Bool}

/-- The carving path of `sys$mprotect`: the range and the parts of the region on both sides of it
become regions. -/
theorem Consistent.mprotectCarve (h : self.Consistent) (hmem : region ∈ self.regions)
    (hencloses : region.range.Encloses range)
    (hcarve : mprotectCarve self region range prot = some self') : self'.Consistent := by
  obtain ⟨parts, new, mid, hparts, hrange, hpos, -, hexchange, halloc, rfl⟩ :=
    mprotectCarve_eq_some (h.ids.eq_of_id hmem) hcarve
  obtain ⟨hranges, hadded⟩ := h.of_mem_parts hmem hencloses hparts
  have hinside := (h.ok region hmem).inside.trans hencloses
  have hvalid : mid.rangeAllocator.Valid := halloc ▸ h.valid
  rw [mapRegions, updateRegion, List.map_map]
  refine (h.exchange hexchange hvalid (by rw [halloc]) (fun x => ?_)
    (forall_mem_append.mpr ⟨hadded, by simpa [hrange] using ⟨hinside, hpos⟩⟩)
    ((fun r => if r.id ∈ new.id :: parts.map Region.id then { r with mapped := true } else r) ∘
      fun r => if r.id = new.id then r.setProt prot else r) fun r => ?_).1
  · have := Range.multiplicity_remainder hencloses x
    rw [halloc, map_append, multiplicity_append, hranges, map_singleton, hrange, map_singleton]
    omega
  · have hset := setProt_keeps new.id prot r
    obtain ⟨hid, hrange, -, hmapped⟩ := mapRegions_keeps (new.id :: parts.map Region.id)
      (if r.id = new.id then r.setProt prot else r)
    refine ⟨hid.trans hset.1, hrange.trans hset.2.1, fun hr => hmapped (hr.imp hset.2.2.trans fun hr => ?_)⟩
    have := List.mem_map_of_mem (f := Region.id) hr
    rw [hset.1]
    simpa [or_comm] using this

/-- The range allocator fails and changes nothing, or a range is cut out of it. -/
def AllocatesRange (self : Space) (result : Option Range × Space) : Prop :=
  result = (none, self) ∨ ∃ range rangeAllocator,
    result = (some range, { self with rangeAllocator }) ∧
      RangeAllocator.TakesRange self.rangeAllocator range rangeAllocator

theorem withAllocator_allocatesRange {P : Range → Prop} {result : Option Range × RangeAllocator}
    (h : RangeAllocator.AllocatesRange self.rangeAllocator P result) :
    AllocatesRange self (self.withAllocator result) := by
  rcases h with rfl | ⟨range, rangeAllocator, rfl, -, htakes⟩
  · exact .inl rfl
  · exact .inr ⟨range, rangeAllocator, rfl, htakes⟩

/-- An alignment of zero is harmless here: the total range does not start at address zero. -/
theorem Consistent.zeroAlignmentOk (h : self.Consistent) (size alignment : ℕ) :
    self.rangeAllocator.ZeroAlignmentOk size alignment := by
  intro _ hbase
  exact absurd hbase h.base_pos.ne'

theorem allocateRange_allocatesRange (h : self.Consistent) {vaddr size alignment : ℕ}
    (hvaddr : vaddr < 2 ^ 32) (hsize : size ≤ 0xfffff000) {result : Option Range × Space}
    (hallocate : self.allocateRange vaddr size alignment = some result) :
    AllocatesRange self result := by
  obtain ⟨rounded, hrounded, hallocate⟩ := bind_eq_some_iff.mp hallocate
  have hround := pageRoundUp_eq_some hsize hrounded
  split at hallocate
  · obtain ⟨inner, hinner, hresult⟩ := bind_eq_some_iff.mp hallocate
    cases hresult
    exact withAllocator_allocatesRange (RangeAllocator.allocateAnywhere_allocatesRange h.valid
      (h.zeroAlignmentOk _ _) hinner)
  · obtain ⟨inner, hinner, hresult⟩ := bind_eq_some_iff.mp hallocate
    cases hresult
    refine withAllocator_allocatesRange (RangeAllocator.allocateSpecific_allocatesRange h.valid
      ?_ (by omega) hinner)
    exact (Nat.div_mul_le_self _ _).trans_lt hvaddr

theorem mmapRange_allocatesRange (h : self.Consistent) {random : ℕ → UInt32} {roundedSize : ℕ}
    (hsize : params.size.toNat ≤ 0xfffff000) (hrounded : roundedSize < 2 ^ 32)
    {result : Option Range × Space}
    (hrange : mmapRange self params random roundedSize = some result) :
    AllocatesRange self result := by
  rw [mmapRange] at hrange
  split at hrange
  · obtain ⟨inner, hinner, hresult⟩ := bind_eq_some_iff.mp hrange
    cases hresult
    exact withAllocator_allocatesRange (RangeAllocator.allocateRandomized_allocatesRange h.valid
      hrounded (h.zeroAlignmentOk _ _) hinner)
  · obtain ⟨inner, hinner, hrange⟩ := bind_eq_some_iff.mp hrange
    have hfirst := allocateRange_allocatesRange h params.addr.toNat_lt hsize hinner
    rcases hfirst with rfl | ⟨range, rangeAllocator, rfl, htakes⟩
    · simp only at hrange
      split at hrange
      · exact allocateRange_allocatesRange h (by decide) hsize hrange
      · cases hrange
        exact .inl rfl
    · simp only [isNone_some, Bool.false_eq_true, false_and, if_false, Option.pure_def,
        some.injEq] at hrange
      exact .inr ⟨range, rangeAllocator, hrange.symm, htakes⟩

/-- `allocate_region` adds a mapped region over the range. -/
theorem allocateRegion_eq_ok
    (hallocate : self.allocateRegion range prot env = some (.ok region, self')) :
    region.id = self.nextId ∧ region.range = range ∧ 0 < range.size ∧ region.mapped = true ∧
      self' = self.addRegion region := by
  rw [allocateRegion, verify_bind_eq_some] at hallocate
  obtain ⟨-, hallocate⟩ := hallocate
  split at hallocate
  · simp at hallocate
  · obtain ⟨created, hcreated, hallocate⟩ := bind_eq_some_iff.mp hallocate
    obtain ⟨hid, hrange, hpos, -⟩ := createUserAccessible_eq_some hcreated
    split at hallocate
    · obtain ⟨destroyed, -, hallocate⟩ := bind_eq_some_iff.mp hallocate
      simp at hallocate
    · cases hallocate
      exact ⟨hid, hrange, hpos, rfl, rfl⟩

/-- A successful anonymous mapping adds one region over the range that was allocated for it. -/
theorem sysMmap_consistent (h : self.Consistent)
    (hanonymous : hasFlag params.flags mapAnonymous = true)
    (hmmap : sysMmap self params env = some (.ok value, self')) : self'.Consistent := by
  rcases sysMmap_cases hmmap with ⟨hfail, -⟩ | ⟨roundedSize, hsize, hrounded, -, hmmap⟩
  · exact absurd rfl (hfail value)
  have hround := pageRoundUp_eq_some hsize hrounded
  obtain ⟨result, hresult, hmmap⟩ := bind_eq_some_iff.mp hmmap
  rcases mmapRange_allocatesRange h hsize (by omega) hresult with
    rfl | ⟨range, rangeAllocator, rfl, htakes⟩
  · simp at hmmap
  simp only [mmapRegion, hanonymous, if_true] at hmmap
  obtain ⟨⟨result, mid⟩, hregion, hmmap⟩ := bind_eq_some_iff.mp hmmap
  cases result with
  | error errno => simp at hmmap
  | ok region =>
    obtain ⟨hid, hrange, hpos, hmapped, rfl⟩ := allocateRegion_eq_ok hregion
    cases hmmap
    obtain ⟨front, entry, back, hsplit, hencloses, -⟩ := htakes.cut
    have hinside : self.rangeAllocator.totalRange.Encloses range :=
      (h.valid.inside entry (by simp [hsplit])).trans hencloses
    have hexchange : Exchanges self [] [region] (self.addRegion region) := addRegion_exchanges hid
    refine (h.exchange hexchange (htakes.valid h.valid) htakes.totalRange (fun x => ?_) ?_
      (fun r => if r.id = region.id then setMmapFlags params r else r) fun r => ?_).1
    · simpa [hrange] using htakes.multiplicity x
    · simpa [hrange] using ⟨hinside, hpos⟩
    · have hr : r.mapped = true ∨ r ∈ [region] → r.mapped = true :=
        fun hr => hr.elim id fun hr => mem_singleton.mp hr ▸ hmapped
      split <;> exact ⟨rfl, rfl, hr⟩

/-- A successful `sys$mprotect` keeps the address space consistent. -/
theorem sysMprotect_consistent (h : self.Consistent) {inode : InodeState}
    (hmprotect : sysMprotect self promises addr size prot inode = some (.ok value, self')) :
    self'.Consistent := by
  rcases sysMprotect_cases hmprotect with ⟨hfail, -⟩ |
    ⟨range, whole, mid, hexpanded, hne, hfind, hcases⟩
  · exact absurd rfl (hfail value)
  obtain ⟨hlt, hpage, -⟩ := expandRangeToPageBoundaries_eq_ok size.toNat_lt hexpanded
  obtain ⟨hmid, -, -, -⟩ := findRegionFromRange_eq_some h hpage hlt hfind
  rcases hcases with rfl | ⟨region, -, -, rfl⟩ | ⟨region, hold, -, hcarve⟩
  · exact hmid
  · refine (hmid.exchange (.refl _) hmid.valid rfl (fun _ => rfl) (by simp) _ fun r => ?_).1
    obtain ⟨hid, hrange, hmapped⟩ := setProt_keeps region.id prot r
    exact ⟨hid, hrange, fun hr => hmapped.trans (by simpa using hr)⟩
  · obtain ⟨hmem, hencloses⟩ := findRegionContaining_encloses hmid (Nat.pos_of_ne_zero hne) hlt hold
    exact hmid.mprotectCarve hmem hencloses hcarve

/-- The range of a call of `sys$munmap` lies inside one region. -/
def InsideRegion (self : Space) (range : Range) : Prop :=
  ∃ region ∈ self.regions, region.range.Encloses range

/-- A successful `sys$munmap` has a range to work on. -/
theorem sysMunmap_expands
    (hmunmap : sysMunmap self promises canGrow addr size = some (.ok value, self')) :
    ∃ range, expandRangeToPageBoundaries addr.toNat size.toNat = some (.ok range) := by
  rcases sysMunmap_cases hmunmap with ⟨hfail, -⟩ | ⟨range, -, -, -, hexpanded, -, -⟩
  · exact absurd rfl (hfail value)
  · exact ⟨range, hexpanded⟩

/-- A successful `sys$munmap` inside one region takes the range away from the regions. -/
theorem sysMunmap_consistent (h : self.Consistent)
    (hexpand : expandRangeToPageBoundaries addr.toNat size.toNat = some (.ok range))
    (hinside : self.InsideRegion range)
    (hmunmap : sysMunmap self promises canGrow addr size = some (.ok value, self')) :
    self'.Consistent ∧ ∀ x, self'.covers x + multiplicity Range.addresses [range] x = self.covers x := by
  obtain ⟨hlt, hpage, hpos⟩ := expandRangeToPageBoundaries_eq_ok size.toNat_lt hexpand
  rcases sysMunmap_cases hmunmap with ⟨hfail, -⟩ |
    ⟨range', whole, mid, hne, hexpanded, hfind, hcases⟩
  · exact absurd rfl (hfail value)
  obtain rfl : range = range' := by simpa [hexpand] using hexpanded
  have hpos := hpos (Nat.pos_of_ne_zero fun h0 => hne (UInt32.toNat_inj.mp h0))
  obtain ⟨hmid, hregions, -, hwhole⟩ := findRegionFromRange_eq_some h hpage hlt hfind
  have hcovers : mid.covers = self.covers := funext fun x => by rw [covers, covers, hregions]
  rw [← hcovers]
  rcases hcases with ⟨hfail, -⟩ | ⟨region, rfl, hdeallocate⟩ | ⟨region, hold, hcarve⟩ |
    ⟨-, -, -, hnone, -⟩
  · exact absurd rfl (hfail value)
  · obtain ⟨hmem, rfl⟩ := hwhole region rfl
    exact hmid.deallocateRegion (hregions ▸ hmem) hdeallocate
  · obtain ⟨hmem, hencloses⟩ := findRegionContaining_encloses hmid hpos hlt hold
    exact hmid.munmapCarve hmem hencloses hcarve
  · -- the third path is not taken
    obtain ⟨region, hmem, hencloses⟩ := hinside
    exact absurd hnone (findRegionContaining_ne_none hmid hpos hlt (hregions ▸ hmem) hencloses)

theorem Consistent.create (random : UInt8) : (create random).Consistent := by
  have hoffset : pageBase (random.toNat % 32 * 0x100000) ≤ 31 * 0x100000 := by
    refine (Nat.div_mul_le_self _ _).trans ?_
    omega
  have hbase : userspaceRangeBase = 0x00800000 := rfl
  have hceiling : userspaceRangeCeiling = 0xbe000000 := rfl
  refine {
    valid := .initializeWithRange (by omega) (by omega)
    base_pos := ?_
    end_lt := ?_
    ok := by simp [Space.create]
    sorted := .nil
    ids := ⟨by simp [Space.create], .nil⟩
    cache_lt := by simp [Space.create]
    cache := by simp [Space.create]
    tiles := by
      simp only [Space.create, map_nil, append_nil]
      exact tiles_singleton }
  · simp only [Space.create, RangeAllocator.initializeWithRange]
    omega
  · simp only [Space.create, RangeAllocator.initializeWithRange]
    omega

/-! ## Runs -/

/-- The calls on an address space. -/
inductive Call where
  | mmap (params : MmapParams) (env : MmapEnv)
  | munmap (promises : Option (List Pledge)) (canGrow : Bool) (addr size : UInt32)
  | mprotect (promises : Option (List Pledge)) (addr size : UInt32) (prot : BitVec 32)
      (inode : InodeState)

/-- The address space after a call that succeeds. -/
def succeeds : Option SyscallResult → Option Space
  | some (.ok _, self) => some self
  | _ => none

/-- One successful call. Mappings are anonymous and private. -/
def step (self : Space) : Call → Option Space
  | .mmap params env =>
    if hasFlag params.flags mapAnonymous && hasFlag params.flags mapPrivate then
      succeeds (sysMmap self params env)
    else none
  | .munmap promises canGrow addr size => succeeds (sysMunmap self promises canGrow addr size)
  | .mprotect promises addr size prot inode =>
    succeeds (sysMprotect self promises addr size prot inode)

/-- The condition under which a call keeps the partition: `sys$munmap` is called for a range
inside one region. -/
def StepOk (self : Space) : Call → Prop
  | .munmap _ _ addr size => ∀ range,
    expandRangeToPageBoundaries addr.toNat size.toNat = some (.ok range) → self.InsideRegion range
  | _ => True

/-- Regions and free ranges partition the range of the allocator. -/
structure Partitioned (space : Space) : Prop where
  regions : space.regions.Pairwise fun a b => Disjoint a.range.addresses b.range.addresses
  free : ∀ region ∈ space.regions, ∀ entry ∈ space.rangeAllocator.availableRanges,
    Disjoint region.range.addresses entry.addresses
  cover : {x | (∃ region ∈ space.regions, x ∈ region.range.addresses) ∨
      ∃ entry ∈ space.rangeAllocator.availableRanges, x ∈ entry.addresses} =
    space.rangeAllocator.totalRange.addresses

/-- From `space` to `space'` exactly the range is unmapped: no region meets it any more, and every
other address that was mapped still is. -/
structure Unmaps (space : Space) (range : Range) (space' : Space) : Prop where
  gone : ∀ region ∈ space'.regions, Disjoint region.range.addresses range.addresses
  kept : ∀ region ∈ space.regions, ∀ x ∈ region.range.addresses, x ∉ range.addresses →
    ∃ region' ∈ space'.regions, region'.mapped = true ∧ x ∈ region'.range.addresses

theorem succeeds_eq_some {result : Option SyscallResult} (h : succeeds result = some self') :
    ∃ value, result = some (.ok value, self') := by
  rcases result with - | ⟨value | value, space⟩
  · simp [succeeds] at h
  · simp [succeeds] at h
  · exact ⟨value, by simpa [succeeds] using h⟩

theorem Consistent.partitioned (h : self.Consistent) : Partitioned self := by
  have hdisjoint := pairwise_disjoint_iff.mpr h.tiles.le_one
  rw [pairwise_append, pairwise_map] at hdisjoint
  refine ⟨hdisjoint.2.1, fun region hregion entry hentry => ?_, ?_⟩
  · exact (hdisjoint.2.2 entry hentry region.range (List.mem_map_of_mem hregion)).symm
  · ext x
    rw [h.tiles.mem_iff]
    simp only [Set.mem_ofPred_eq, mem_append, List.mem_map]
    constructor
    · rintro (⟨region, hregion, hx⟩ | ⟨entry, hentry, hx⟩)
      · exact ⟨region.range, .inr ⟨region, hregion, rfl⟩, hx⟩
      · exact ⟨entry, .inl hentry, hx⟩
    · rintro ⟨entry, hentry | ⟨region, hregion, rfl⟩, hx⟩
      · exact .inr ⟨entry, hentry, hx⟩
      · exact .inl ⟨region, hregion, hx⟩

/-- One successful call that meets the condition keeps the address space consistent. -/
theorem Consistent.step {call : Call} (h : self.Consistent) (hok : StepOk self call)
    (hstep : step self call = some self') : self'.Consistent := by
  cases call with
  | mmap params env =>
    simp only [Space.step] at hstep
    split at hstep
    next hflags =>
      rw [Bool.and_eq_true] at hflags
      obtain ⟨value, hmmap⟩ := succeeds_eq_some hstep
      exact sysMmap_consistent h hflags.1 hmmap
    next => simp at hstep
  | munmap promises canGrow addr size =>
    obtain ⟨value, hmunmap⟩ := succeeds_eq_some hstep
    obtain ⟨range, hexpand⟩ := sysMunmap_expands hmunmap
    exact (sysMunmap_consistent h hexpand (hok range hexpand) hmunmap).1
  | mprotect promises addr size prot inode =>
    obtain ⟨value, hmprotect⟩ := succeeds_eq_some hstep
    exact sysMprotect_consistent h hmprotect

/-- A successful `sys$munmap` inside one region unmaps exactly its range. -/
theorem Consistent.unmaps (h : self.Consistent)
    (hexpand : expandRangeToPageBoundaries addr.toNat size.toNat = some (.ok range))
    (hinside : self.InsideRegion range)
    (hmunmap : sysMunmap self promises canGrow addr size = some (.ok value, self')) :
    Unmaps self range self' := by
  obtain ⟨hconsistent, hbalance⟩ := sysMunmap_consistent h hexpand hinside hmunmap
  have hmultiplicity : ∀ {s : Space} {x : ℕ},
      0 < s.covers x ↔ ∃ r ∈ s.regions, x ∈ r.range.addresses := by
    intro s x
    rw [covers, multiplicity_pos]
    simp
  refine ⟨fun region hregion => Set.disjoint_left.mpr fun x hx hrange => ?_, ?_⟩
  · -- the address would have been covered twice before
    have hafter := hmultiplicity.mpr ⟨region, hregion, hx⟩
    have hbefore := h.tiles.le_one x
    have := hbalance x
    rw [multiplicity_append, ← covers] at hbefore
    rw [multiplicity_cons, if_pos hrange] at this
    omega
  · intro region hregion x hx hrange
    have hbefore := hmultiplicity.mpr ⟨region, hregion, hx⟩
    have := hbalance x
    rw [multiplicity_cons, if_neg hrange, multiplicity_nil] at this
    obtain ⟨region', hregion', hx'⟩ := hmultiplicity.mp (this ▸ hbefore)
    exact ⟨region', hregion', (hconsistent.ok region' hregion').mapped, hx'⟩

/-- **Partition of the address space.** From a fresh address space, in every run of successful
calls in which every range given to `sys$munmap` lies inside one region, regions and free ranges
partition the range of the allocator, and `sys$munmap` unmaps exactly its range. -/
theorem partitioned_of_meets (random : UInt8) (calls : List Call) (space : Space)
    (hok : Meets step StepOk (create random) calls)
    (hrun : run step (create random) calls = some space) :
    Partitioned space ∧ ∀ promises canGrow addr size range space',
      expandRangeToPageBoundaries addr.toNat size.toNat = some (.ok range) →
      space.InsideRegion range →
      step space (.munmap promises canGrow addr size) = some space' →
      Unmaps space range space' := by
  have hconsistent : space.Consistent :=
    run_induction (fun _ _ _ h hok hstep => h.step hok hstep) (.create random) hok hrun
  refine ⟨hconsistent.partitioned, ?_⟩
  intro promises canGrow addr size range space' hexpand hinside hstep
  obtain ⟨value, hmunmap⟩ := succeeds_eq_some hstep
  exact hconsistent.unmaps hexpand hinside hmunmap

/-- `mmap(addr, 0x1000, PROT_READ | PROT_WRITE, MAP_PRIVATE | MAP_FIXED | MAP_ANONYMOUS)` of a
process without promises, when memory is available. -/
def fixedPageCall (addr : UInt32) : Call :=
  .mmap ⟨addr, 0x1000, 0x1000, protRead ||| protWrite, mapPrivate ||| mapFixed ||| mapAnonymous, 0,
    none⟩ ⟨none, fun _ => 0, true, true, none⟩

/-- A fresh address space after `fixedPageCall 0x10001000`. -/
def fixedPageSpace : Space where
  rangeAllocator := ⟨[⟨0x00800000, 0x0f801000⟩, ⟨0x10002000, 0xadffe000⟩], ⟨0x00800000, 0xbd800000⟩⟩
  regions := [⟨0, ⟨0x10001000, 0x1000⟩, 0, ⟨.anonymous, 0x1000⟩, 0x33, false, true, false,
    true, false, true⟩]
  regionLookupCache := ⟨none, none⟩
  nextId := 1

/-- The run theorem on one mapped page, and on the call that unmaps it. -/
theorem partitioned_of_meets_page :
    Partitioned fixedPageSpace ∧ Unmaps fixedPageSpace ⟨0x10001000, 0x1000⟩
      ⟨⟨[⟨0x00800000, 0xbd800000⟩], ⟨0x00800000, 0xbd800000⟩⟩, [],
        ⟨some ⟨0x10001000, 0x1000⟩, none⟩, 1⟩ := by
  have h := partitioned_of_meets 0 [fixedPageCall 0x10001000] fixedPageSpace
    ⟨trivial, fun _ _ => trivial⟩ (by decide +kernel)
  refine ⟨h.1, h.2 none true 0x10001000 0x1000 _ _ (by decide +kernel) ?_ (by decide +kernel)⟩
  exact ⟨_, mem_singleton.mpr rfl, by decide⟩

/-- One page is mapped at `0x10001000`, and `sys$munmap` is called for it and the free page below
it. No region starts at or below the range, so none is found; the call succeeds, the page stays
mapped, and the allocator counts it as free. -/
theorem munmap_leaves_overlap :
    run step (create 0) [fixedPageCall 0x10001000] = some fixedPageSpace ∧
      ∃ space, step fixedPageSpace (.munmap none true 0x10000000 0x2000) = some space ∧
        ¬ Partitioned space ∧ ¬ Unmaps fixedPageSpace ⟨0x10000000, 0x2000⟩ space := by
  refine ⟨by decide +kernel, { fixedPageSpace with
    rangeAllocator :=
      ⟨[⟨0x00800000, 0x0f801000⟩, ⟨0x10000000, 0xae000000⟩], ⟨0x00800000, 0xbd800000⟩⟩ },
    by decide +kernel, fun h => ?_, fun h => ?_⟩
  · have hfree := h.free _ (mem_singleton.mpr rfl) ⟨0x10000000, 0xae000000⟩ (by simp)
    exact Set.disjoint_left.mp hfree (show 0x10001000 ∈ _ by decide) (by decide)
  · have hgone := h.gone _ (mem_singleton.mpr rfl)
    exact Set.disjoint_left.mp hgone (show 0x10001000 ∈ _ by decide) (by decide)

end Space

end Kernel
